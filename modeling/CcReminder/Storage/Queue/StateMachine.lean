import CcReminder.Storage.Queue.Run

/-!
# The state machine

The states that a job passes through, its lease columns and its attempts, along any run of the
queue.
-/

set_option autoImplicit true

namespace CcReminder

open Lib

/-- The edges of the state machine. -/
inductive DeliveryStatus.Edge : DeliveryStatus → DeliveryStatus → Prop
  | claim : Edge .pending .sending
  | claimRetry : Edge .retryWait .sending
  | reclaim : Edge .sending .sending
  | succeed : Edge .sending .succeeded
  | retry : Edge .sending .retryWait
  | fail : Edge .sending .failed
  | expireSent : Edge .sending .expired
  | expire : Edge .pending .expired
  | expireRetry : Edge .retryWait .expired
  | manualRetry : Edge .failed .pending

/-- One entry of the history of a job: it is created, takes an edge, or stays as it is. -/
inductive DeliveryStatus.Change : Option DeliveryStatus → Option DeliveryStatus → Prop
  | stay : Change s s
  | created : Change none (some .pending)
  | edge : Edge s s' → Change (some s) (some s')

namespace Database

/-- The state of the job `k`. -/
def stateOf (db : Database) (k : Uuid) : Option DeliveryStatus :=
  (db.deliveryJobs.find? k).map (·.state)

/-- A job is in `sending` just when both lease columns are set. -/
def LeaseInv (db : Database) : Prop :=
  ∀ k j, db.deliveryJobs.find? k = some j →
    (j.state = .sending ↔ j.leaseOwner.isSome ∧ j.leaseExpiresAt.isSome)

/-- The states that a job can be claimed from. -/
theorem isCandidate.state {db : Database} {j : JobRow} (h : db.isCandidate now j) :
    j.state = .pending ∨ j.state = .retryWait ∨
      j.state = .sending ∧ ∃ e ≤ now, j.leaseExpiresAt = some e := by
  have hst : j.claimableState now := by
    rcases h with h | ⟨key, -, h⟩
    · simp only [isCandidateSingle, decide_eq_true_eq] at h
      exact h.1
    · simp only [isBucketJob, decide_eq_true_eq] at h
      exact h.2.1
  simp only [JobRow.claimableState, decide_eq_true_eq, Option.any_eq_true] at hst
  refine hst.imp (fun h => h) (.imp (fun h => h) ?_)
  rintro ⟨hs, e, he, hle⟩
  exact ⟨hs, e, hle, he⟩

end Database

theorem JobRow.isWaiting_cases {j : JobRow} (h : j.isWaiting) :
    j.state = .pending ∨ j.state = .retryWait := by
  simpa [isWaiting] using h

namespace QueueOp.RowStep

variable {sha256 : List UInt8 → List UInt8} {o : QueueOp α}

/-- Unless its lease is negative, an operation takes each job along an edge. -/
theorem change (h : o.RowStep sha256 db a k r r')
    (hlease : ∀ worker now lease n, o.kind = .claim worker now lease n → 0 ≤ lease) :
    DeliveryStatus.Change (r.map (·.state)) (r'.map (·.state)) := by
  cases h with
  | same => exact .stay
  | inserted => exact .created
  | @granted worker now lease n j hkind hj =>
    rcases hj.state with hs | hs | ⟨hs, -⟩ <;>
      simp only [Option.map_some, JobRow.toSending, hs]
    · exact .edge .claim
    · exact .edge .claimRetry
    · exact .edge .reclaim
  | disturbed hkind hneg => exact absurd (hlease _ _ _ _ hkind) (Int.not_le.mpr hneg)
  | settled hkind hk hs hj' =>
    simp only [Option.map_some, hs]
    cases hj' with
    | delivered => exact .edge .succeed
    | retryAt => exact .edge .retry
    | expire => exact .edge .expireSent
    | giveUp => exact .edge .fail
    | fail => exact .edge .fail
  | @swept _ j _ hj =>
    rcases JobRow.isWaiting_cases hj with hs | hs <;> simp only [Option.map_some, JobRow.sweep, hs]
    · exact .edge .expire
    · exact .edge .expireRetry
  | revived hkind hs =>
    simp only [Option.map_some, JobRow.revive, hs]
    exact .edge .manualRetry

/-- A job that was delivered or has expired keeps its row. -/
theorem of_terminal (h : o.RowStep sha256 db a k (some j) r')
    (hj : j.state = .succeeded ∨ j.state = .expired) : r' = some j := by
  have hclaim : ∀ {now}, ¬db.isCandidate now j := fun hc => by
    rcases hc.state with hs | hs | ⟨hs, -⟩ <;> simp [hs] at hj
  cases h with
  | same => rfl
  | granted _ hc => exact absurd hc hclaim
  | disturbed _ _ hc => exact absurd hc hclaim
  | settled _ _ hs => simp [hs] at hj
  | swept _ hw => rcases JobRow.isWaiting_cases hw with hs | hs <;> simp [hs] at hj
  | revived _ hs => simp [hs] at hj

/-- Every operation sets or clears the lease columns together with the state. -/
theorem leaseInv (h : o.RowStep sha256 db a k r (some j'))
    (hj : ∀ j, r = some j →
      (j.state = .sending ↔ j.leaseOwner.isSome ∧ j.leaseExpiresAt.isSome)) :
    j'.state = .sending ↔ j'.leaseOwner.isSome ∧ j'.leaseExpiresAt.isSome := by
  cases h with
  | same => exact hj j' rfl
  | inserted => simp [DeliveryJob.toRow]
  | granted => simp [JobRow.toSending]
  | disturbed _ _ _ _ hd =>
    rcases hd with rfl | rfl <;> simp [JobRow.toSending, JobRow.unclaim]
  | settled _ _ _ hs =>
    cases hs <;>
      simp [JobRow.toSucceeded, JobRow.toRetryWait, JobRow.toExpired, JobRow.toFailed]
  | swept => simp [JobRow.sweep]
  | revived => simp [JobRow.revive]

/-- The columns that are written once, by the `INSERT`. -/
theorem static (h : o.RowStep sha256 db a k (some j) (some j')) :
    j'.id = j.id ∧ j'.eventId = j.eventId ∧ j'.channelId = j.channelId ∧
      j'.idempotencyKey = j.idempotencyKey ∧ j'.expiresAt = j.expiresAt ∧
      j'.aggregateKey = j.aggregateKey ∧ j'.aggregateReleaseAt = j.aggregateReleaseAt := by
  cases h with
  | same => exact ⟨rfl, rfl, rfl, rfl, rfl, rfl, rfl⟩
  | granted => exact ⟨rfl, rfl, rfl, rfl, rfl, rfl, rfl⟩
  | disturbed _ _ _ _ hd => rcases hd with rfl | rfl <;> exact ⟨rfl, rfl, rfl, rfl, rfl, rfl, rfl⟩
  | settled _ _ _ hs => cases hs <;> exact ⟨rfl, rfl, rfl, rfl, rfl, rfl, rfl⟩
  | swept => exact ⟨rfl, rfl, rfl, rfl, rfl, rfl, rfl⟩
  | revived => exact ⟨rfl, rfl, rfl, rfl, rfl, rfl, rfl⟩

theorem createdAt (h : o.RowStep sha256 db a k (some j) (some j')) : j'.createdAt = j.createdAt := by
  cases h with
  | same => rfl
  | granted => rfl
  | disturbed _ _ _ _ hd => rcases hd with rfl | rfl <;> rfl
  | settled _ _ _ hs => cases hs <;> rfl
  | swept => rfl
  | revived => rfl

/-- No operation deletes a job. -/
theorem isSome (h : o.RowStep sha256 db a k (some j) r') : ∃ j', r' = some j' := by
  cases h <;> exact ⟨_, rfl⟩

/-- A recorded outcome ends a sending period, and nothing else does. -/
theorem recorded_iff (h : o.RowStep sha256 db a k (some j) (some j'))
    (hlease : ∀ worker now lease n, o.kind = .claim worker now lease n → 0 ≤ lease) :
    k ∈ o.recorded ↔ j.state = .sending ∧ j'.state ≠ .sending := by
  cases h with
  | same _ hr => simp [hr]
  | granted hkind => simp [recorded, hkind, JobRow.toSending]
  | disturbed hkind hneg => exact absurd (hlease _ _ _ _ hkind) (Int.not_le.mpr hneg)
  | settled hkind hk hs hj' => simp [recorded, hkind, hk, hs, hj'.state_ne]
  | swept hkind hw =>
    rcases JobRow.isWaiting_cases hw with hs | hs <;> simp [recorded, hkind, hs]
  | revived hkind hs => simp [recorded, hkind, hs]

end QueueOp.RowStep

/-! ## Steps and runs -/

namespace QueueStep

variable {sha256 : List UInt8 → List UInt8}

theorem leaseInv (h : QueueStep sha256 c c') (hinv : c.db.LeaseInv) : c'.db.LeaseInv := by
  cases h with
  | other hjobs => exact fun k j hj => hinv k j (hjobs ▸ hj)
  | op o =>
    rcases hrun : o.run sha256 c with ⟨e | a, c'⟩
    · rw [o.run_error hrun]
      exact hinv
    · exact fun k j' hj' => (hj' ▸ o.rowStep hrun k).leaseInv (hinv k)

theorem numbered (h : QueueStep sha256 c c') (hinv : c.db.Numbered) : c'.db.Numbered := by
  cases h with
  | other _ hattempts =>
    intro k
    rw [Database.attemptsOf_congr hattempts]
    exact hinv k
  | op o =>
    rcases hrun : o.run sha256 c with ⟨e | a, c'⟩
    · rw [o.run_error hrun]
      exact hinv
    · exact (o.attempts hrun).1 hinv

theorem of_terminal (h : QueueStep sha256 c c') (hj : c.db.deliveryJobs.find? k = some j)
    (hs : j.state = .succeeded ∨ j.state = .expired) :
    c'.db.deliveryJobs.find? k = some j := by
  cases h with
  | other hjobs => exact hjobs ▸ hj
  | op o =>
    rcases hrun : o.run sha256 c with ⟨e | a, c'⟩
    · rw [o.run_error hrun]
      exact hj
    · exact (hj ▸ o.rowStep hrun k).of_terminal hs

end QueueStep

theorem QueueRun.of_terminal {sha256} (hrun : QueueRun sha256 c c')
    (hj : c.db.deliveryJobs.find? k = some j) (hs : j.state = .succeeded ∨ j.state = .expired) :
    c'.db.deliveryJobs.find? k = some j := by
  induction hrun with
  | refl => exact hj
  | tail _ hstep ih => exact hstep.of_terminal ih hs

theorem QueueRun.leaseInv {sha256} (hrun : QueueRun sha256 c₀ c) (hinv : c₀.db.LeaseInv) :
    c.db.LeaseInv := by
  induction hrun with
  | refl => exact hinv
  | tail _ hstep ih => exact hstep.leaseInv ih

theorem QueueRun.numbered {sha256} (hrun : QueueRun sha256 c₀ c) (hinv : c₀.db.Numbered) :
    c.db.Numbered := by
  induction hrun with
  | refl => exact hinv
  | tail _ hstep ih => exact hstep.numbered ih

/-- **The state machine.** In every table that a run reaches from an empty queue:

* a job is in `sending` just when both lease columns are set, and its attempts are numbered
  `1..n`;
* the next operation, when it succeeds, adds one attempt for each outcome it records;
* if it is not a claim with a negative lease, it also takes each job along an edge of the state
  machine, and the jobs that leave `sending` are those for which it records an outcome;
* the next operation, when it fails, leaves jobs, attempts and channels as they were;
* a job that was delivered or has expired keeps its row for the rest of the run. -/
theorem QueueRun.stateMachine {sha256} (hjobs : c₀.db.deliveryJobs = ∅)
    (hattempts : c₀.db.deliveryAttempts = ∅) (hrun : QueueRun sha256 c₀ c) :
    (∀ k j, c.db.deliveryJobs.find? k = some j →
      (j.state = .sending ↔ j.leaseOwner.isSome ∧ j.leaseExpiresAt.isSome)) ∧
    (∀ k, (c.db.attemptsOf k).map (·.attemptNumber) =
      List.range' 1 (c.db.attemptsOf k).length) ∧
    (∀ {α : Type} (o : QueueOp α) a c', o.run sha256 c = (.ok a, c') →
      (∀ k, ∃ rows, c'.db.attemptsOf k = c.db.attemptsOf k ++ rows ∧
        rows.length = o.recorded.count k) ∧
      ((∀ worker now lease n, o.kind = .claim worker now lease n → 0 ≤ lease) →
        (∀ k, DeliveryStatus.Change (c.db.stateOf k) (c'.db.stateOf k)) ∧
        ∀ k j j', c.db.deliveryJobs.find? k = some j → c'.db.deliveryJobs.find? k = some j' →
          (k ∈ o.recorded ↔ j.state = .sending ∧ j'.state ≠ .sending))) ∧
    (∀ {α : Type} (o : QueueOp α) e c', o.run sha256 c = (.error e, c') →
      c'.db.deliveryJobs = c.db.deliveryJobs ∧
      c'.db.deliveryAttempts = c.db.deliveryAttempts ∧ c'.db.channels = c.db.channels) ∧
    ∀ c', QueueRun sha256 c c' → ∀ k j, c.db.deliveryJobs.find? k = some j →
      j.state = .succeeded ∨ j.state = .expired → c'.db.deliveryJobs.find? k = some j := by
  have hlease : c₀.db.LeaseInv := fun k j hj => by simp [hjobs] at hj
  have hnum : c₀.db.Numbered := fun k => by
    simp [Database.attemptsOf, hattempts, show (∅ : Table AttemptRow.id).rows = [] from rfl]
  refine ⟨hrun.leaseInv hlease, hrun.numbered hnum, fun o a c' ho => ?_, fun o e c' ho => ?_,
    fun c' hrun' k j hj hs => hrun'.of_terminal hj hs⟩
  · refine ⟨(o.attempts ho).2, fun hl => ⟨fun k => (o.rowStep ho k).change hl, ?_⟩⟩
    intro k j j' hj hj'
    have h := o.rowStep ho k
    rw [hj, hj'] at h
    exact h.recorded_iff hl
  · rw [o.run_error ho]
    exact ⟨rfl, rfl, rfl⟩

/-- A bucket of two jobs, one of which has been retried while the other is still leased. -/
def Sample.halfRetried : List ((α : Type) × QueueOp α) :=
  [⟨_, .enqueue (job 1 (some "bucket"))⟩, ⟨_, .enqueue (job 2 (some "bucket"))⟩,
   ⟨_, .claimDue "worker" 0 (Duration.seconds 10) 8⟩,
   ⟨_, .retry 1 (Duration.seconds 1) timeout⟩]

theorem QueueRun.stateMachine_halfRetried :
    ((runOps id Sample.halfRetried Sample.start).db.attemptsOf 1).map (·.attemptNumber) = [1] := by
  have hlen : ((runOps id Sample.halfRetried Sample.start).db.attemptsOf 1).length = 1 := by
    decide +kernel
  have hrun : QueueRun id Sample.start (runOps id Sample.halfRetried Sample.start) :=
    QueueRun.ofOps _ _
  have h := (QueueRun.stateMachine rfl rfl hrun).2.1 1
  rwa [hlen] at h

/-- A claim on a lease that ended five seconds before the other job's does puts the bucket back:
the retried job goes from `retry_wait` to `pending`, which is no edge. -/
theorem QueueRun.change_negativeLease :
    ∃ c c', Sample.start.db.deliveryJobs = ∅ ∧ QueueRun id Sample.start c ∧
      c' = ((QueueOp.claimDue "worker" (Duration.seconds 20) (Duration.seconds (-15)) 8).run id c).2 ∧
      c.db.stateOf 1 = some .retryWait ∧ c'.db.stateOf 1 = some .pending ∧
      ¬DeliveryStatus.Change (c.db.stateOf 1) (c'.db.stateOf 1) := by
  have h : (runOps id Sample.halfRetried Sample.start).db.stateOf 1 = some .retryWait := by
    decide +kernel
  have h' : ((QueueOp.claimDue "worker" (Duration.seconds 20) (Duration.seconds (-15)) 8).run id
      (runOps id Sample.halfRetried Sample.start)).2.db.stateOf 1 = some .pending := by
    decide +kernel
  refine ⟨_, _, rfl, QueueRun.ofOps Sample.halfRetried Sample.start, rfl, h, h', ?_⟩
  rw [h, h']
  rintro (_ | _ | ⟨⟨⟩⟩)

end CcReminder
