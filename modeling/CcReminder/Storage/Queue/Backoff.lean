import CcReminder.Storage.Queue.StateMachine
import CcReminder.Lib.Reach

/-!
# Backoff

A single job is claimed only when its `next_attempt_at` has come. The queries for buckets do not
look at that column: what keeps a bucket from being claimed too early is its release time before
the first attempt, and the cool-down of its channel (`next_allowed_at`) before the later ones.
-/

set_option autoImplicit true

namespace CcReminder

open Lib

/-- The queue with the time of the last claim or manual retry and all jobs handed out so far. -/
structure Clocked where
  conn : Conn
  clock : DateTime
  handed : List (DateTime × DeliveryJob)

namespace Clocked

def after (s : Clocked) (o : QueueOp α) (a : α) (c' : Conn) : Clocked where
  conn := c'
  clock := match o.kind with
    | .claim _ now _ _ => now
    | .manualRetry _ now => now
    | _ => s.clock
  handed := o.handsOutAt a ++ s.handed

inductive Act : Type 1
  | call {α : Type} (o : QueueOp α)
  | other

inductive Step (sha256 : List UInt8 → List UInt8) : Clocked → Act → Clocked → Prop
  | ok {s : Clocked} {α : Type} {o : QueueOp α} {a : α} {c' : Conn}
    (hrun : o.run sha256 s.conn = (.ok a, c')) : Step sha256 s (.call o) (s.after o a c')
  | error {s : Clocked} {α : Type} {o : QueueOp α} {c' : Conn}
    (hrun : o.run sha256 s.conn = (.error e, c')) : Step sha256 s (.call o) { s with conn := c' }
  | other {s : Clocked} {c' : Conn} (hjobs : c'.db.deliveryJobs = s.conn.db.deliveryJobs)
    (hattempts : c'.db.deliveryAttempts = s.conn.db.deliveryAttempts) :
    Step sha256 s .other { s with conn := c' }

def Initial (s : Clocked) : Prop :=
  s.conn.db.deliveryJobs = ∅ ∧ s.conn.db.deliveryAttempts = ∅ ∧ s.handed = []

/-- A job enqueued into a bucket is due when the bucket is released, and on the channel of the
bucket. -/
def Buckets (db : Database) (job : DeliveryJob) : Prop :=
  ∀ key, job.aggregateKey = some key →
    (∃ release, job.aggregateReleaseAt = some release ∧ job.nextAttemptAt ≤ release) ∧
    ∀ j ∈ db.deliveryJobs.rows, j.aggregateKey = some key → j.channelId = job.channelId

/-- The cool-down of the channel covers the backoff of each job of a bucket that waits for a retry
and is not due. -/
def Covered (db : Database) (now : DateTime) : Prop :=
  ∀ j ∈ db.deliveryJobs.rows, j.aggregateKey.isSome → j.state = .retryWait →
    now < j.nextAttemptAt → ∀ channel, db.channels.find? j.channelId = some channel →
    channel.nextAllowedAt.any (j.nextAttemptAt ≤ ·)

/-- Buckets are filled as `enqueue_jobs` fills them, the clock does not run backwards, and at each
claim the cool-downs cover the backoffs. -/
def Shielded (s : Clocked) : Act → Prop
  | .call o =>
    match o.kind with
    | .enqueue job => Buckets s.conn.db job
    | .claim _ now _ _ => s.clock ≤ now ∧ Covered s.conn.db now
    | .manualRetry _ now => s.clock ≤ now
    | _ => True
  | .other => True

/-! ## One step -/

/-- Why a job of a bucket is not claimed too early, as long as it is not waiting for a retry. -/
structure JobInv (clock : DateTime) (j : JobRow) : Prop where
  pending : j.state = .pending → j.nextAttemptAt ≤ clock ∨
    ∃ release, j.aggregateReleaseAt = some release ∧ j.nextAttemptAt ≤ release
  sending : j.state = .sending → j.nextAttemptAt ≤ clock

structure Inv (s : Clocked) : Prop where
  handed : ∀ p ∈ s.handed, p.2.nextAttemptAt ≤ p.1
  job : ∀ j ∈ s.conn.db.deliveryJobs.rows, j.aggregateKey.isSome → JobInv s.clock j
  channel : ∀ i ∈ s.conn.db.deliveryJobs.rows, ∀ j ∈ s.conn.db.deliveryJobs.rows,
    i.aggregateKey.isSome → j.aggregateKey = i.aggregateKey → j.channelId = i.channelId

/-- Under the invariant every candidate is due. -/
theorem Inv.due {s : Clocked} (h : Inv s) (hclock : s.clock ≤ now) (hcov : Covered s.conn.db now)
    (hj : j ∈ s.conn.db.deliveryJobs.rows) (hc : s.conn.db.isCandidate now j) :
    j.nextAttemptAt ≤ now := by
  rcases hc with hc | ⟨key, hkey, hc⟩
  · simp only [Database.isCandidateSingle, decide_eq_true_eq] at hc
    exact hc.2.1
  have hstate := Database.isCandidate.state (.inr ⟨key, hkey, hc⟩)
  simp only [Database.isBucketJob, decide_eq_true_eq] at hc
  obtain ⟨hjkey, -, hrel, -⟩ := hc
  have hsome : j.aggregateKey.isSome := by simp [hjkey]
  rcases hstate with hs | hs | ⟨hs, -⟩
  · rcases (h.job j hj hsome).pending hs with hle | ⟨release, hr, hle⟩
    · exact hle.trans hclock
    · rw [hr] at hrel
      exact hle.trans (by simpa using hrel)
  · -- the channel of the bucket is available, so its cool-down is over, and with it the backoff
    by_contra hnot
    obtain ⟨i, hi, hikey, havail⟩ := Database.mem_candidateBuckets hkey
    have hch : i.channelId = j.channelId :=
      h.channel j hj i hi hsome (hikey.trans hjkey.symm)
    rw [Database.channelAvailable, hch] at havail
    obtain ⟨channel, hfind, hav⟩ := (Option.any_eq_true _ _).mp havail
    have hall := hcov j hj hsome hs (Int.not_le.mp hnot) channel hfind
    simp only [ChannelRow.available, decide_eq_true_eq] at hav
    obtain ⟨t, ht, hle⟩ := (Option.any_eq_true _ _).mp hall
    have hnow : t ≤ now := by simpa [ht] using hav.2
    exact hnot ((of_decide_eq_true hle).trans hnow)
  · exact ((h.job j hj hsome).sending hs).trans hclock

section After

variable {s : Clocked} {α : Type} {o : QueueOp α} {a : α} {c' : Conn} {sha256 : List UInt8 → List UInt8}

theorem clock_le (hok : Shielded s (.call o)) : s.clock ≤ (s.after o a c').clock := by
  simp only [after]
  simp only [Shielded] at hok
  split
  · rename_i hkind
    simp only [hkind] at hok
    exact hok.1
  · rename_i hkind
    simpa only [hkind] using hok
  · exact le_rfl

theorem JobInv.mono (h : JobInv t j) (ht : t ≤ t') : JobInv t' j :=
  ⟨fun hs => (h.pending hs).imp (·.trans ht) (fun h => h), fun hs => (h.sending hs).trans ht⟩

/-- One operation keeps the invariant of each job of a bucket. -/
theorem JobInv.rowStep (hinv : Inv s) (hok : Shielded s (.call o))
    (hr : s.conn.db.deliveryJobs.find? k = r) (h : o.RowStep sha256 s.conn.db a k r (some j'))
    (hkey : j'.aggregateKey.isSome) : JobInv (s.after o a c').clock j' := by
  have hdue : ∀ {worker now lease n j}, o.kind = .claim worker now lease n → r = some j →
      s.conn.db.isCandidate now j → j.nextAttemptAt ≤ (s.after o a c').clock := by
    intro worker now lease n j hkind hj hc
    simp only [Shielded, hkind] at hok
    simp only [after, hkind]
    exact hinv.due hok.1 hok.2 (Table.find?_eq_some_iff.mp (hr.trans hj)).1 hc
  cases h with
  | same => exact (hinv.job j' (Table.find?_eq_some_iff.mp hr).1 hkey).mono (clock_le hok)
  | inserted hkind =>
    simp only [Shielded, hkind] at hok
    obtain ⟨key, hk⟩ := Option.isSome_iff_exists.mp hkey
    exact ⟨fun _ => .inr (hok key hk).1, fun hs => by cases hs⟩
  | granted hkind hj =>
    have hle := hdue hkind rfl hj
    exact ⟨fun hs => (by cases hs), fun _ => hle⟩
  | disturbed hkind _ hj _ hd =>
    have hle := hdue hkind rfl hj
    rcases hd with rfl | rfl
    · exact ⟨fun hs => (by cases hs), fun _ => hle⟩
    · exact ⟨fun _ => .inl hle, fun hs => by cases hs⟩
  | settled _ _ _ hs =>
    cases hs <;> exact ⟨fun hs => (by cases hs), fun hs => by cases hs⟩
  | swept => exact ⟨fun hs => (by cases hs), fun hs => by cases hs⟩
  | revived hkind =>
    refine ⟨fun _ => .inl ?_, fun hs => by cases hs⟩
    simp [after, hkind, JobRow.revive]

/-- A row after an operation has the bucket and the channel of its row before, or of the job that
was enqueued. -/
theorem origin (h : o.RowStep sha256 s.conn.db a j'.id (s.conn.db.deliveryJobs.find? j'.id) (some j')) :
    (∃ j ∈ s.conn.db.deliveryJobs.rows, j'.channelId = j.channelId ∧
      j'.aggregateKey = j.aggregateKey) ∨
    ∃ job, o.kind = .enqueue job ∧ j'.channelId = job.channelId ∧
      j'.aggregateKey = job.aggregateKey := by
  cases hr : s.conn.db.deliveryJobs.find? j'.id with
  | none =>
    rw [hr] at h
    generalize hid : j'.id = k at h
    cases h with
    | inserted hkind => exact .inr ⟨_, hkind, rfl, rfl⟩
  | some j =>
    rw [hr] at h
    obtain ⟨-, -, hch, -, -, hkey, -⟩ := h.static
    exact .inl ⟨j, (Table.find?_eq_some_iff.mp hr).1, hch, hkey⟩

theorem Inv.after (h : Inv s) (hok : Shielded s (.call o)) (hrun : o.run sha256 s.conn = (.ok a, c')) :
    Inv (s.after o a c') := by
  have hrow : ∀ j' ∈ c'.db.deliveryJobs.rows, o.RowStep sha256 s.conn.db a j'.id
      (s.conn.db.deliveryJobs.find? j'.id) (some j') := by
    intro j' hj'
    exact Table.mem_rows_iff.mp hj' ▸ o.rowStep hrun j'.id
  refine ⟨fun p hp => ?_, fun j' hj' hkey => .rowStep h hok rfl (hrow j' hj') hkey, ?_⟩
  · rcases List.mem_append.mp hp with hp | hp
    · cases o with
      | claimDue worker now lease n =>
        obtain ⟨job, hjob, rfl⟩ := List.mem_map.mp hp
        obtain ⟨j, hj, hc, rfl, -⟩ := (ensures_claimDue hrun).granted job hjob
        have hle := h.due hok.1 hok.2 (Table.find?_eq_some_iff.mp hj).1 hc
        exact hle
      | _ => cases hp
    · exact h.handed p hp
  · intro i hi j hj hkey hsame
    rcases origin (hrow i hi) with ⟨i₀, hi₀, hich, hikey⟩ | ⟨job, hjob, hich, hikey⟩ <;>
      rcases origin (hrow j hj) with ⟨j₀, hj₀, hjch, hjkey⟩ | ⟨job', hjob', hjch, hjkey⟩
    · rw [hich, hjch]
      exact h.channel i₀ hi₀ j₀ hj₀ (hikey ▸ hkey) (hjkey ▸ hikey ▸ hsame)
    · simp only [Shielded, hjob'] at hok
      obtain ⟨key, hk⟩ := Option.isSome_iff_exists.mp hkey
      rw [hich, hjch]
      exact ((hok key (hjkey ▸ hsame.trans hk)).2 i₀ hi₀ (hikey ▸ hk)).symm
    · simp only [Shielded, hjob] at hok
      obtain ⟨key, hk⟩ := Option.isSome_iff_exists.mp hkey
      rw [hich, hjch]
      exact (hok key (hikey ▸ hk)).2 j₀ hj₀ (hjkey ▸ hsame.trans hk)
    · obtain rfl : job = job' := by simpa [hjob] using hjob'
      rw [hich, hjch]

end After

/-! ## Runs -/

theorem Step.inv {sha256} (h : Step sha256 s act s') (hok : Shielded s act) (hinv : Inv s) :
    Inv s' := by
  cases h with
  | ok hrun => exact hinv.after hok hrun
  | error hrun =>
    have hdb := QueueOp.run_error _ hrun
    exact ⟨hinv.handed, hdb ▸ hinv.job, hdb ▸ hinv.channel⟩
  | other hjobs => exact ⟨hinv.handed, hjobs ▸ hinv.job, hjobs ▸ hinv.channel⟩

/-- **Backoff.** In every run in which buckets are filled as `enqueue_jobs` fills them, the clock
does not run backwards and the cool-downs cover the backoffs, each job that was handed out was
due at the time of the claim. -/
theorem handed_due {sha256} (h : Reach Initial (Step sha256) Shielded s) :
    ∀ p ∈ s.handed, p.2.nextAttemptAt ≤ p.1 := by
  refine (h.invariant (P := Inv) (fun s hs => ⟨?_, ?_, ?_⟩) fun _ _ _ ih hstep hok =>
    hstep.inv hok ih).handed
  · simp [hs.2.2]
  · simp [hs.1, show (∅ : Table JobRow.id).rows = [] from rfl]
  · simp [hs.1, show (∅ : Table JobRow.id).rows = [] from rfl]

def ops (sha256 : List UInt8 → List UInt8) : List ((α : Type) × QueueOp α) → Clocked → Clocked
  | [], s => s
  | ⟨_, o⟩ :: os, s =>
    match o.run sha256 s.conn with
    | (.ok a, c') => ops sha256 os (s.after o a c')
    | (.error _, c') => ops sha256 os { s with conn := c' }

theorem reach_ops {sha256} : ∀ os s, Reach Initial (Step sha256) (fun _ _ => True) s →
    Reach Initial (Step sha256) (fun _ _ => True) (ops sha256 os s)
  | [], _, h => h
  | ⟨_, o⟩ :: os, s, h => by
    unfold ops
    split
    · rename_i hrun
      exact reach_ops os _ (h.next (.ok hrun) trivial)
    · rename_i hrun
      have hstep : Step sha256 s (.call o) _ := .error hrun
      exact reach_ops os _ (h.next hstep trivial)

/-- A bucket of two jobs that is claimed once. -/
def bucket : List ((α : Type) × QueueOp α) :=
  [⟨_, .enqueue (Sample.job 1 (some "bucket"))⟩, ⟨_, .enqueue (Sample.job 2 (some "bucket"))⟩,
   ⟨_, .claimDue "worker" 0 (Duration.seconds 30) 8⟩]

/-- The jitter of the first 28 draws is nine tenths of the cap, and one tenth after that. -/
def start : Clocked where
  conn := { Sample.start with
    world := fun n => {
      uuid := n
      jitter :=
        if n ≤ 28 then ⟨fun cap => cap / 10 * 9, by omega⟩ else ⟨fun cap => cap / 10, by omega⟩ } }
  clock := 0
  handed := []

/-- A bucket of one job, claimed when it is released. -/
theorem due_bucket : ∃ s : Clocked, s.handed ≠ [] ∧ ∀ p ∈ s.handed, p.2.nextAttemptAt ≤ p.1 := by
  obtain ⟨a, c, hrun⟩ : ∃ a c, (QueueOp.enqueue (Sample.job 1 (some "bucket"))).run id start.conn =
      (.ok a, c) := exists_ok (by decide +kernel)
  have hclaim : ((QueueOp.claimDue "worker" 0 (Duration.seconds 30) 8).run id
      ((QueueOp.enqueue (Sample.job 1 (some "bucket"))).run id start.conn).2).1.toOption.map
        (fun claims => (claimedJobs claims).length) = some 1 := by decide +kernel
  have hrows : ∀ j ∈ ((QueueOp.enqueue (Sample.job 1 (some "bucket"))).run id
      start.conn).2.db.deliveryJobs.rows, j.state = .pending := by decide +kernel
  rw [hrun] at hclaim hrows
  rcases hrun' : (QueueOp.claimDue "worker" 0 (Duration.seconds 30) 8).run id c with ⟨e | claims, c'⟩
  · rw [hrun'] at hclaim
    cases hclaim
  rw [hrun'] at hclaim
  have hone : Reach Initial (Step id) Shielded (start.after _ a c) :=
    .next (.start ⟨rfl, rfl, rfl⟩) (.ok hrun) fun key _ =>
      ⟨⟨0, rfl, le_rfl⟩, fun j hj => absurd hj (by simp [start, Sample.start, EmptyCollection.emptyCollection])⟩
  have htwo := hone.next (.ok hrun') ⟨le_rfl, fun j hj _ hs => absurd (hrows j hj) (by simp [hs])⟩
  refine ⟨_, fun hnil => ?_, handed_due htwo⟩
  have hlen : (claimedJobs claims).length = 1 := Option.some.inj hclaim
  have hnil : (claimedJobs claims).map (fun job => ((0 : DateTime), job)) ++ [] = [] := hnil
  simp_all

/-- Both jobs of the bucket time out a second after the claim. One is to wait until 2.8 s and the
other until 1.2 s, which is what the cool-down of the channel ends up as; at 2 s the bucket is
claimed again as a whole. -/
theorem due_jitter : ∃ s, Reach Initial (Step id) (fun _ _ => True) s ∧
    ∃ p ∈ s.handed, p.1 < p.2.nextAttemptAt :=
  ⟨ops id (bucket ++ [⟨_, .retryAggregate (.aggregate "bucket" [Sample.job 1 (some "bucket"),
      Sample.job 2 (some "bucket")])
      (Duration.seconds 1) Sample.timeout⟩,
    ⟨_, .claimDue "worker" (Duration.seconds 2) (Duration.seconds 30) 8⟩]) start,
    reach_ops _ _ (.start ⟨rfl, rfl, rfl⟩), by decide +kernel⟩

end Clocked

end CcReminder
