import CcReminder.Storage.Queue.StateMachine
import CcReminder.Lib.Reach

/-!
# Expiry

The worker's cycle sweeps the jobs past their TTL and then claims. The sweep covers `pending` and
`retry_wait`, the claim also a job in `sending` whose lease is over. So a job is handed out alive
except when it was left in `sending` until its TTL had passed.
-/

set_option autoImplicit true

namespace CcReminder

open Lib

/-- A job left in `sending` past its lease and its TTL, which a claim at `now` may take: a single
job that is due on an available channel, or a released job of a bucket with a row on an available
channel. -/
def Database.Overdue (db : Database) (now : DateTime) (j : JobRow) : Prop :=
  j.state = .sending ∧ j.leaseExpiresAt.any (· ≤ now) ∧ j.expiresAt ≤ now ∧
    (j.aggregateKey = none ∧ j.nextAttemptAt ≤ now ∧ db.channelAvailable j now ∨
      ∃ key, j.aggregateKey = some key ∧ j.aggregateReleaseAt.any (· ≤ now) ∧
        ∃ i ∈ db.deliveryJobs.rows, i.aggregateKey = some key ∧ db.channelAvailable i now)

/-- What a claim can take after the sweep was there before it, and is alive if it was waiting. -/
theorem Database.alive_of_sweep {db db₁ : Database} {j : JobRow}
    (hjobs : ∀ k, db₁.deliveryJobs.find? k = (db.deliveryJobs.find? k).map fun j =>
      if j.isWaiting ∧ j.expiresAt ≤ now then j.sweep now else j)
    (hrest : db₁ = { db with deliveryJobs := db₁.deliveryJobs })
    (hnone : ∀ k j, db.deliveryJobs.find? k = some j → ¬db.Overdue now j)
    (hj : db₁.deliveryJobs.find? k = some j) (hc : db₁.isCandidate now j) :
    now < j.expiresAt := by
  rw [hjobs k, Option.map_eq_some_iff] at hj
  obtain ⟨j₀, hj₀, hsweep⟩ := hj
  have hchannel : ∀ i : JobRow, db₁.channelAvailable i now = db.channelAvailable i now := by
    intro i
    rw [hrest]
    rfl
  split at hsweep
  · -- a swept job is no candidate
    rcases hc.state with hs | hs | ⟨hs, -⟩ <;> simp [← hsweep, JobRow.sweep] at hs
  rename_i halive
  subst hsweep
  by_contra hexp
  rw [Int.not_lt] at hexp
  rcases hc.state with hs | hs | ⟨hs, e, he, hlease⟩
  · exact halive ⟨by simp [JobRow.isWaiting, hs], hexp⟩
  · exact halive ⟨by simp [JobRow.isWaiting, hs], hexp⟩
  refine hnone k j₀ hj₀ ⟨hs, by simpa [hlease] using he, hexp, ?_⟩
  rcases hc with hc | ⟨key, hkey, hc⟩
  · simp only [isCandidateSingle, decide_eq_true_eq] at hc
    exact .inl ⟨hc.2.2.2.1, hc.2.1, hchannel j₀ ▸ hc.2.2.2.2⟩
  · simp only [isBucketJob, decide_eq_true_eq] at hc
    obtain ⟨i, hi, hikey, havail⟩ := mem_candidateBuckets hkey
    refine .inr ⟨key, hc.1, hc.2.2.1, ?_⟩
    have hfind := Table.mem_rows_iff.mp hi
    rw [hjobs, Option.map_eq_some_iff] at hfind
    obtain ⟨i₀, hi₀, rfl⟩ := hfind
    refine ⟨i₀, (Table.find?_eq_some_iff.mp hi₀).1, ?_, ?_⟩
    · split at hikey <;> exact hikey
    · rw [hchannel] at havail
      split at havail <;> exact havail

/-- The queue together with the jobs that worker cycles handed out, each with the time of its
cycle. -/
structure Cycles where
  conn : Conn
  handed : List (DateTime × DeliveryJob)

namespace Cycles

inductive Act where
  | cycle (now : DateTime)
  | other

inductive Step (sha256 : List UInt8 → List UInt8) : Cycles → Act → Cycles → Prop
  | cycle {now : DateTime} {c c₁ c₂ : Conn} {jobs : List (DateTime × DeliveryJob)} {m n : Nat}
    {worker : String} {lease : Duration} {claims : List ClaimedDelivery}
    (hsweep : expireDue now c = (.ok m, c₁))
    (hclaim : claimDue worker now lease n c₁ = (.ok claims, c₂)) :
    Step sha256 ⟨c, jobs⟩ (.cycle now) ⟨c₂, (claimedJobs claims).map (now, ·) ++ jobs⟩
  | other {c c' : Conn} {jobs : List (DateTime × DeliveryJob)} (h : QueueStep sha256 c c') :
    Step sha256 ⟨c, jobs⟩ .other ⟨c', jobs⟩

def Initial (s : Cycles) : Prop :=
  s.conn.db.deliveryJobs = ∅ ∧ s.conn.db.deliveryAttempts = ∅ ∧ s.handed = []

/-- When a cycle starts, no job is overdue. -/
def NoneOverdue (s : Cycles) : Act → Prop
  | .cycle now => ∀ k j, s.conn.db.deliveryJobs.find? k = some j → ¬s.conn.db.Overdue now j
  | .other => True

theorem Step.alive {sha256} (h : Step sha256 s act s') (hok : NoneOverdue s act)
    (hs : ∀ p ∈ s.handed, p.1 < p.2.expiresAt) : ∀ p ∈ s'.handed, p.1 < p.2.expiresAt := by
  cases h with
  | other => exact hs
  | @cycle now _ _ _ _ _ _ _ _ _ hsweep hclaim =>
    intro p hp
    rcases List.mem_append.mp hp with hp | hp
    · obtain ⟨job, hjob, rfl⟩ := List.mem_map.mp hp
      obtain ⟨j, hj, hc, rfl, -⟩ := (ensures_claimDue hclaim).granted job hjob
      obtain ⟨hjobs, hrest⟩ := ensures_expireDue hsweep
      have halive : now < j.expiresAt := Database.alive_of_sweep hjobs hrest hok hj hc
      exact halive
    · exact hs p hp

/-- **No delivery past its TTL.** In every run whose cycles start with no job overdue, each job
that a cycle handed out was alive at the time of the cycle. -/
theorem handed_alive {sha256} (h : Reach Initial (Step sha256) NoneOverdue s) :
    ∀ p ∈ s.handed, p.1 < p.2.expiresAt :=
  h.invariant (P := fun s => ∀ p ∈ s.handed, p.1 < p.2.expiresAt)
    (fun s hs p hp => by simp [hs.2.2] at hp) fun _ _ _ ih hstep hok => hstep.alive hok ih

theorem reach_ops {sha256} {ok : Cycles → Act → Prop} (hok : ∀ s, ok s .other) : ∀ os c,
    Reach Initial (Step sha256) ok ⟨c, []⟩ → Reach Initial (Step sha256) ok ⟨runOps sha256 os c, []⟩
  | [], _, h => h
  | ⟨_, o⟩ :: os, c, h =>
    reach_ops hok os (o.run sha256 c).2 (h.next (.other (.op o)) (hok _))

/-- A job with a TTL of one hour, and a worker that crashes when it has claimed it. -/
def crashed : List ((α : Type) × QueueOp α) :=
  [⟨_, .enqueue (Sample.job 1 none)⟩, ⟨_, .claimDue "worker" 0 (Duration.seconds 30) 8⟩]

/-- One cycle of the worker at `now`. -/
def cycle (now : DateTime) : Tx (List ClaimedDelivery) := do
  let _ ← expireDue now
  claimDue "worker" now (Duration.seconds 30) 8

theorem step_cycle {sha256} {ok : Cycles → Act → Prop} (h : Reach Initial (Step sha256) ok ⟨c, jobs⟩)
    (hok : ok ⟨c, jobs⟩ (.cycle now)) (hrun : cycle now c = (.ok claims, c')) :
    Reach Initial (Step sha256) ok ⟨c', (claimedJobs claims).map (now, ·) ++ jobs⟩ := by
  obtain ⟨m, c₁, hsweep, hclaim⟩ := Txn.bind_ok_iff.mp hrun
  exact h.next (.cycle hsweep hclaim) hok

/-- What a cycle at `now` hands out after the crash. -/
theorem cycle_crashed (now : DateTime) (h : ((cycle now (runOps id crashed Sample.start)).1.toOption.map
      fun claims => (claimedJobs claims).map (·.expiresAt)) = some [Duration.minutes 60]) :
    ∃ claims c' job, cycle now (runOps id crashed Sample.start) = (.ok claims, c') ∧
      claimedJobs claims = [job] ∧ job.expiresAt = Duration.minutes 60 := by
  rcases hrun : cycle now (runOps id crashed Sample.start) with ⟨e | claims, c'⟩
  · rw [hrun] at h
    cases h
  · rw [hrun] at h
    obtain ⟨job, hjob, hexp⟩ := List.map_eq_singleton_iff.mp (Option.some.inj h)
    exact ⟨claims, c', job, rfl, hjob, hexp⟩

theorem reach_crashed {ok : Cycles → Act → Prop} (hok : ∀ s, ok s .other) :
    Reach Initial (Step id) ok ⟨runOps id crashed Sample.start, []⟩ :=
  reach_ops hok _ _ (.start ⟨rfl, rfl, rfl⟩)

/-- A minute after the crash a cycle hands the job out again, while it is alive. -/
theorem alive_after_minute : ∃ s : Cycles, s.handed ≠ [] ∧ ∀ p ∈ s.handed, p.1 < p.2.expiresAt := by
  obtain ⟨claims, c', job, hrun, hjob, -⟩ := cycle_crashed (Duration.minutes 1) (by decide +kernel)
  have hnone : NoneOverdue ⟨runOps id crashed Sample.start, []⟩ (.cycle (Duration.minutes 1)) := by
    intro k j hj hover
    have hrows : ∀ j ∈ (runOps id crashed Sample.start).db.deliveryJobs.rows,
        Duration.minutes 1 < j.expiresAt := by decide +kernel
    exact absurd hover.2.2.1 (Int.not_le.mpr (hrows j (Table.find?_eq_some_iff.mp hj).1))
  refine ⟨_, ?_, handed_alive (step_cycle (reach_crashed fun _ => trivial) hnone hrun)⟩
  simp [hjob]

/-- Two hours after the crash a cycle hands the job out again, an hour past its TTL. -/
theorem alive_after_hours : ∃ s, Reach Initial (Step id) (fun _ _ => True) s ∧
    ∃ p ∈ s.handed, p.2.expiresAt ≤ p.1 := by
  obtain ⟨claims, c', job, hrun, hjob, hexp⟩ :=
    cycle_crashed (Duration.minutes 120) (by decide +kernel)
  refine ⟨_, step_cycle (reach_crashed fun _ => trivial) trivial hrun,
    (Duration.minutes 120, job), by simp [hjob], ?_⟩
  rw [hexp]
  exact show Duration.minutes 60 ≤ Duration.minutes 120 by decide

end Cycles

end CcReminder
