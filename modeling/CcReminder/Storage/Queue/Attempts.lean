import CcReminder.Storage.Queue.StateMachine
import CcReminder.Lib.Reach

/-!
# The attempt bound

A job's period begins when the job is created or retried by hand. In one period it may be claimed
at most `MAX_ATTEMPTS` times and at most as often as the delivery policy of its rule allows. The
queue counts only the attempts that were recorded, the one that just ended not included, and knows
nothing of the policy; a lease that ends without an outcome is not counted at all. So the bound
holds just as long as neither a failure nor a lapsed lease makes a job claimable again at the
bound.
-/

set_option autoImplicit true

namespace CcReminder

open Lib

namespace QueueOp

/-- Whether an operation begins a new period of the job `k`. -/
def revives (o : QueueOp α) (k : Uuid) : Bool :=
  match o.kind with
  | .manualRetry jobId _ => jobId = k
  | _ => false

def creates (o : QueueOp α) (k : Uuid) : Bool :=
  match o.kind with
  | .enqueue job => job.id = k
  | _ => false

def isClaim (o : QueueOp α) : Bool :=
  match o.kind with
  | .claim .. => true
  | _ => false

/-- No job is handed out twice by one call. -/
theorem claimed_nodup {sha256} (o : QueueOp α) (h : o.run sha256 c = (.ok a, c')) :
    (o.claimed a).Nodup := by
  cases o with
  | claimDue => exact (ensures_claimDue h).nodup
  | _ => exact .nil

end QueueOp

/-- The queue with, for each job, the claims handed out in the present period, those of them whose
lease ended without an outcome, and the `max_attempts` of the policy it was enqueued under. -/
structure Counted where
  conn : Conn
  claims : Uuid → Nat
  lapses : Uuid → Nat
  maxAttempts : Uuid → Nat

namespace Counted

/-- What an operation that returned `a` adds to the counts. -/
def after (s : Counted) (o : QueueOp α) (policy : DeliveryPolicy) (a : α) (c' : Conn) : Counted where
  conn := c'
  claims k := if o.revives k then 0 else s.claims k + (o.claimed a).count k
  lapses k :=
    if o.revives k then 0
    else if o.isClaim ∧ s.conn.db.stateOf k = some .sending ∧
        (k ∈ o.claimed a ∨ c'.db.deliveryJobs.find? k ≠ s.conn.db.deliveryJobs.find? k) then
      s.lapses k + 1
    else s.lapses k
  maxAttempts k :=
    if o.creates k ∧ s.conn.db.deliveryJobs.find? k = none then policy.maxAttempts.toNat
    else s.maxAttempts k

/-- An operation, with the policy of the effective rule when it enqueues. -/
inductive Act : Type 1
  | call {α : Type} (o : QueueOp α) (policy : DeliveryPolicy)
  | other

/-- The rules are validated to have a positive `max_attempts`. -/
inductive Step (sha256 : List UInt8 → List UInt8) : Counted → Act → Counted → Prop
  | ok {s : Counted} {α : Type} {o : QueueOp α} {policy : DeliveryPolicy} {a : α} {c' : Conn}
    (hpolicy : 0 < policy.maxAttempts) (hrun : o.run sha256 s.conn = (.ok a, c')) :
    Step sha256 s (.call o policy) (s.after o policy a c')
  | error {s : Counted} {α : Type} {o : QueueOp α} {policy : DeliveryPolicy} {c' : Conn}
    (hrun : o.run sha256 s.conn = (.error e, c')) :
    Step sha256 s (.call o policy) { s with conn := c' }
  | other {s : Counted} {c' : Conn} (hjobs : c'.db.deliveryJobs = s.conn.db.deliveryJobs)
    (hattempts : c'.db.deliveryAttempts = s.conn.db.deliveryAttempts) :
    Step sha256 s .other { s with conn := c' }

def Initial (s : Counted) : Prop :=
  s.conn.db.deliveryJobs = ∅ ∧ s.conn.db.deliveryAttempts = ∅ ∧ ∀ k, s.claims k = 0

/-- The most claims that a period of the job `k` may have. -/
def bound (s : Counted) (k : Uuid) : Nat := min MAX_ATTEMPTS.toNat (s.maxAttempts k)

/-- A lapsed lease is claimed again, and a failure is retried, only while the failures recorded
and the leases lapsed in the period, with the present one, stay below the bound. -/
def BelowBound (s : Counted) : Act → Prop
  | .call o _ =>
    match o.kind with
    | .claim _ now _ _ => ∀ k j, s.conn.db.deliveryJobs.find? k = some j →
      s.conn.db.isCandidate now j → j.state = .sending → j.attempts + s.lapses k + 1 < s.bound k
    | .report now (.retry error) ks => ∀ k ∈ ks, ∀ j, s.conn.db.deliveryJobs.find? k = some j →
      RetryPolicy.isRetryable error → now < j.expiresAt → j.attempts + s.lapses k + 1 < s.bound k
    | _ => True
  | .other => True

/-! ## The counts of one job -/

/-- The counts of a job that exists. -/
structure Counts (claims lapses bound : Nat) (j : JobRow) : Prop where
  pos : 0 < bound
  le : claims ≤ bound
  waiting : j.isWaiting → claims ≤ j.attempts + lapses ∧ claims < bound
  sending : j.state = .sending → claims ≤ j.attempts + lapses + 1

namespace Counts

theorem zero (h : 0 < b) : Counts 0 l b j :=
  ⟨h, Nat.zero_le b, fun _ => ⟨Nat.zero_le _, h⟩, fun _ => Nat.zero_le _⟩

theorem claim (h : Counts n l b j) (hj : j.isWaiting) :
    Counts (n + 1) l b (j.toSending worker L) := by
  obtain ⟨hle, hlt⟩ := h.waiting hj
  refine ⟨h.pos, hlt, fun hw => ?_, fun _ => Nat.succ_le_succ hle⟩
  simp [JobRow.isWaiting, JobRow.toSending] at hw

theorem reclaim (h : Counts n l b j) (hj : j.state = .sending) (hb : j.attempts + l + 1 < b) :
    Counts (n + 1) (l + 1) b (j.toSending worker L) := by
  have hle := h.sending hj
  refine ⟨h.pos, by omega, fun hw => ?_, fun _ => Nat.succ_le_succ hle⟩
  simp [JobRow.isWaiting, JobRow.toSending] at hw

theorem disturb (h : Counts n l b j) (hj : j.isWaiting) (hd : j.Disturbed worker now L j') :
    Counts n l b j' := by
  obtain ⟨hle, hlt⟩ := h.waiting hj
  rcases hd with rfl | rfl
  · refine ⟨h.pos, h.le, fun hw => ?_, fun _ => Nat.le_succ_of_le hle⟩
    simp [JobRow.isWaiting, JobRow.toSending] at hw
  · refine ⟨h.pos, h.le, fun _ => ⟨hle, hlt⟩, fun hs => ?_⟩
    simp [JobRow.unclaim] at hs

theorem disturbLapsed (h : Counts n l b j) (hj : j.state = .sending)
    (hb : j.attempts + l + 1 < b) (hd : j.Disturbed worker now L j') : Counts n (l + 1) b j' := by
  have hle := h.sending hj
  rcases hd with rfl | rfl
  · refine ⟨h.pos, h.le, fun hw => ?_, fun _ => Nat.le_succ_of_le hle⟩
    simp [JobRow.isWaiting, JobRow.toSending] at hw
  · refine ⟨h.pos, h.le, fun _ => ⟨hle, by omega⟩, fun hs => ?_⟩
    simp [JobRow.unclaim] at hs

theorem settle {out : Outcome} (h : Counts n l b j) (hj : j.state = .sending)
    (ho : out.Settles now j j')
    (hb : ∀ error, out = .retry error → RetryPolicy.isRetryable error → now < j.expiresAt →
      j.attempts + l + 1 < b) : Counts n l b j' := by
  have hle := h.sending hj
  cases ho with
  | retryAt hdec =>
    obtain ⟨hret, -, halive, -, -⟩ := RetryPolicy.classify_retryAt hdec
    have := hb _ rfl hret halive
    refine ⟨h.pos, h.le, fun _ => ⟨?_, by omega⟩, fun hs => ?_⟩
    · simp only [JobRow.toRetryWait]
      omega
    · simp [JobRow.toRetryWait] at hs
  | delivered =>
    exact ⟨h.pos, h.le, by simp [JobRow.isWaiting, JobRow.toSucceeded], by simp [JobRow.toSucceeded]⟩
  | expire =>
    exact ⟨h.pos, h.le, by simp [JobRow.isWaiting, JobRow.toExpired], by simp [JobRow.toExpired]⟩
  | giveUp =>
    exact ⟨h.pos, h.le, by simp [JobRow.isWaiting, JobRow.toFailed], by simp [JobRow.toFailed]⟩
  | fail =>
    exact ⟨h.pos, h.le, by simp [JobRow.isWaiting, JobRow.toFailed], by simp [JobRow.toFailed]⟩

theorem sweep (h : Counts n l b j) : Counts n l b (j.sweep now) :=
  ⟨h.pos, h.le, by simp [JobRow.isWaiting, JobRow.sweep], by simp [JobRow.sweep]⟩

end Counts

/-! ## One step -/

/-- The counts of the job `k`, whose row is `r`. -/
def JobInv (s : Counted) (k : Uuid) : Option JobRow → Prop
  | none => s.claims k = 0
  | some j => Counts (s.claims k) (s.lapses k) (s.bound k) j

section After

variable {s : Counted} {α : Type} {o : QueueOp α} {policy : DeliveryPolicy} {a : α} {c' : Conn}

theorem claimed_of_isClaim (h : o.isClaim = false) (a : α) : o.claimed a = [] := by
  cases o <;> simp_all [QueueOp.isClaim, QueueOp.kind, QueueOp.claimed]

theorem bound_after (h : s.conn.db.deliveryJobs.find? k = some j) :
    (s.after o policy a c').bound k = s.bound k := by simp [bound, after, h]

/-- Any operation may begin a new period. -/
theorem JobInv.revive (h : JobInv s k (some j)) (hj : s.conn.db.deliveryJobs.find? k = some j)
    (hrev : o.revives k = true) : JobInv (s.after o policy a c') k (some j') := by
  have hclaims : (s.after o policy a c').claims k = 0 := by simp [after, hrev]
  rw [JobInv, hclaims, bound_after hj]
  exact .zero h.pos

/-- What is left to show of an operation that does not begin a new period, and is no claim. -/
theorem JobInv.of_isClaim (hj : s.conn.db.deliveryJobs.find? k = some j)
    (hrev : o.revives k = false) (hclaim : o.isClaim = false)
    (h : Counts (s.claims k) (s.lapses k) (s.bound k) j') :
    JobInv (s.after o policy a c') k (some j') := by
  have hclaims : (s.after o policy a c').claims k = s.claims k := by
    simp [after, hrev, claimed_of_isClaim hclaim a]
  have hlapses : (s.after o policy a c').lapses k = s.lapses k := by simp [after, hrev, hclaim]
  rw [JobInv, hclaims, hlapses, bound_after hj]
  exact h

theorem JobInv.same (h : JobInv s k r) (hr : s.conn.db.deliveryJobs.find? k = r)
    (hr' : c'.db.deliveryJobs.find? k = r) (hclaimed : k ∉ o.claimed a) :
    JobInv (s.after o policy a c') k r := by
  have hcount : (o.claimed a).count k = 0 := List.count_eq_zero_of_not_mem hclaimed
  cases r with
  | none =>
    have h : s.claims k = 0 := h
    simp [JobInv, after, hcount, h]
  | some j =>
    by_cases hrev : o.revives k = true
    · exact h.revive hr hrev
    · have h : Counts (s.claims k) (s.lapses k) (s.bound k) j := h
      rw [JobInv, bound_after hr]
      simpa [after, hrev, hcount, hclaimed, hr, hr'] using h

theorem JobInv.inserted {job : DeliveryJob} (h : JobInv s k none)
    (hr : s.conn.db.deliveryJobs.find? k = none) (hpolicy : 0 < policy.maxAttempts)
    (hkind : o.kind = .enqueue job) (hid : job.id = k) :
    JobInv (s.after o policy a c') k (some j) := by
  have hb : (s.after o policy a c').bound k = min MAX_ATTEMPTS.toNat policy.maxAttempts.toNat := by
    simp [bound, after, QueueOp.creates, hkind, hid, hr]
  have hclaims : (s.after o policy a c').claims k = 0 := by
    have hn : o.claimed a = [] := claimed_of_isClaim (by simp [QueueOp.isClaim, hkind]) a
    have h : s.claims k = 0 := h
    simp [after, hn, h]
  rw [JobInv, hb, hclaims]
  exact .zero (Nat.lt_min.mpr ⟨by decide, hpolicy⟩)

theorem JobInv.granted (h : JobInv s k (some j)) (hr : s.conn.db.deliveryJobs.find? k = some j)
    (hkind : o.kind = .claim worker now lease n) (hj : s.conn.db.isCandidate now j)
    (hcount : (o.claimed a).count k = 1) (hclaimed : k ∈ o.claimed a)
    (hb : j.state = .sending → j.attempts + s.lapses k + 1 < s.bound k) :
    JobInv (s.after o policy a c') k (some (j.toSending worker L)) := by
  have hrev : o.revives k = false := by simp [QueueOp.revives, hkind]
  have hclaim : o.isClaim = true := by simp [QueueOp.isClaim, hkind]
  have hclaims : (s.after o policy a c').claims k = s.claims k + 1 := by simp [after, hrev, hcount]
  rw [JobInv, hclaims, bound_after hr]
  by_cases hs : j.state = .sending
  · have hlapses : (s.after o policy a c').lapses k = s.lapses k + 1 := by
      simp [after, hrev, hclaim, Database.stateOf, hr, hs, hclaimed]
    rw [hlapses]
    exact h.reclaim hs (hb hs)
  · have hlapses : (s.after o policy a c').lapses k = s.lapses k := by
      simp [after, hrev, Database.stateOf, hr, hs]
    rw [hlapses]
    refine h.claim ?_
    rcases hj.state with hst | hst | ⟨hst, -⟩
    · simp [JobRow.isWaiting, hst]
    · simp [JobRow.isWaiting, hst]
    · exact absurd hst hs

theorem JobInv.disturbed (h : JobInv s k (some j)) (hr : s.conn.db.deliveryJobs.find? k = some j)
    (hr' : c'.db.deliveryJobs.find? k = some j')
    (hkind : o.kind = .claim worker now lease n) (hj : s.conn.db.isCandidate now j)
    (hclaimed : k ∉ o.claimed a) (hd : j.Disturbed worker now L j')
    (hb : j.state = .sending → j.attempts + s.lapses k + 1 < s.bound k) :
    JobInv (s.after o policy a c') k (some j') := by
  by_cases hsame : j' = j
  · exact (hsame ▸ h).same (hsame ▸ hr) hr' hclaimed
  have hrev : o.revives k = false := by simp [QueueOp.revives, hkind]
  have hclaim : o.isClaim = true := by simp [QueueOp.isClaim, hkind]
  have hclaims : (s.after o policy a c').claims k = s.claims k := by
    simp [after, hrev, List.count_eq_zero_of_not_mem hclaimed]
  rw [JobInv, hclaims, bound_after hr]
  by_cases hs : j.state = .sending
  · have hlapses : (s.after o policy a c').lapses k = s.lapses k + 1 := by
      simp [after, hrev, hclaim, Database.stateOf, hr, hr', hs, hsame]
    rw [hlapses]
    exact h.disturbLapsed hs (hb hs) hd
  · have hlapses : (s.after o policy a c').lapses k = s.lapses k := by
      simp [after, hrev, Database.stateOf, hr, hs]
    rw [hlapses]
    refine h.disturb ?_ hd
    rcases hj.state with hst | hst | ⟨hst, -⟩
    · simp [JobRow.isWaiting, hst]
    · simp [JobRow.isWaiting, hst]
    · exact absurd hst hs

/-- One operation keeps the counts of each job. -/
theorem JobInv.rowStep {sha256} (hpolicy : 0 < policy.maxAttempts) (hnd : (o.claimed a).Nodup)
    (hok : BelowBound s (.call o policy)) (hr : s.conn.db.deliveryJobs.find? k = r)
    (hr' : c'.db.deliveryJobs.find? k = r') (h : JobInv s k r)
    (hstep : o.RowStep sha256 s.conn.db a k r r') : JobInv (s.after o policy a c') k r' := by
  cases hstep with
  | same hclaimed => exact h.same hr hr' hclaimed
  | inserted hkind hid => exact h.inserted hr hpolicy hkind hid
  | granted hkind hj hclaimed =>
    refine h.granted hr hkind hj (List.count_eq_one_of_mem hnd hclaimed) hclaimed fun hs => ?_
    simp only [BelowBound, hkind] at hok
    exact hok k _ hr hj hs
  | disturbed hkind _ hj hclaimed hd =>
    refine h.disturbed hr hr' hkind hj hclaimed hd fun hs => ?_
    simp only [BelowBound, hkind] at hok
    exact hok k _ hr hj hs
  | settled hkind hk hs ho =>
    refine .of_isClaim hr (by simp [QueueOp.revives, hkind]) (by simp [QueueOp.isClaim, hkind])
      (h.settle hs ho ?_)
    rintro error rfl hret halive
    simp only [BelowBound, hkind] at hok
    exact hok k hk _ hr hret halive
  | swept hkind =>
    exact .of_isClaim hr (by simp [QueueOp.revives, hkind]) (by simp [QueueOp.isClaim, hkind]) h.sweep
  | revived hkind => exact h.revive hr (by simp [QueueOp.revives, hkind])

end After

/-! ## Runs -/

def Inv (s : Counted) : Prop := ∀ k, JobInv s k (s.conn.db.deliveryJobs.find? k)

theorem Step.inv {sha256} (h : Step sha256 s act s') (hok : BelowBound s act) (hinv : Inv s) :
    Inv s' := by
  cases h with
  | ok hpolicy hrun =>
    exact fun k => (hinv k).rowStep hpolicy (QueueOp.claimed_nodup _ hrun) hok rfl rfl
      (QueueOp.rowStep _ hrun k)
  | error hrun =>
    intro k
    rw [show _ = s.conn.db from QueueOp.run_error _ hrun]
    exact hinv k
  | other hjobs =>
    intro k
    rw [show _ = s.conn.db.deliveryJobs from hjobs]
    exact hinv k

theorem inv {sha256} (h : Reach Initial (Step sha256) BelowBound s) : Inv s := by
  refine h.invariant (P := Inv) (fun s hs k => ?_) fun _ _ _ ih hstep hok => hstep.inv hok ih
  rw [hs.1]
  exact hs.2.2 k

/-- Run operations that enqueue under `policy`. -/
def ops (sha256 : List UInt8 → List UInt8) (policy : DeliveryPolicy) :
    List ((α : Type) × QueueOp α) → Counted → Counted
  | [], s => s
  | ⟨_, o⟩ :: os, s =>
    match o.run sha256 s.conn with
    | (.ok a, c') => ops sha256 policy os (s.after o policy a c')
    | (.error _, c') => ops sha256 policy os { s with conn := c' }

theorem reach_ops {sha256} (hpolicy : 0 < policy.maxAttempts) : ∀ os s,
    Reach Initial (Step sha256) (fun _ _ => True) s →
    Reach Initial (Step sha256) (fun _ _ => True) (ops sha256 policy os s)
  | [], _, h => h
  | ⟨_, o⟩ :: os, s, h => by
    unfold ops
    split
    · rename_i hrun
      exact reach_ops hpolicy os _ (h.next (.ok hpolicy hrun) trivial)
    · rename_i hrun
      have hstep : Step sha256 s (.call o policy) _ := .error hrun
      exact reach_ops hpolicy os _ (h.next hstep trivial)

def start : Counted := { conn := Sample.start, claims _ := 0, lapses _ := 0, maxAttempts _ := 0 }

theorem start_initial : Initial start := ⟨rfl, rfl, fun _ => rfl⟩

def policy (maxAttempts : UInt8) : DeliveryPolicy where
  mode := .immediate
  cooldownSeconds := 0
  maxPerWindow := 0
  windowSeconds := 60
  quietBehavior := .suppress
  ttlSeconds := 3600
  maxAttempts := maxAttempts

/-- A claim at `t` seconds whose send times out two seconds later. -/
def timesOut (t : Int) : List ((α : Type) × QueueOp α) :=
  [⟨_, .claimDue "worker" (Duration.seconds t) (Duration.seconds 30) 8⟩,
   ⟨_, .retry 1 (Duration.seconds (t + 2)) Sample.timeout⟩]

/-- Five time-outs are retried, also when the rule allows one attempt. -/
def sixClaims : List ((α : Type) × QueueOp α) :=
  ⟨_, .enqueue (Sample.job 1 none)⟩ :: [0, 10, 20, 30, 40, 50].flatMap timesOut

end Counted

end CcReminder
