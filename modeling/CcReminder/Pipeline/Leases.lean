import CcReminder.Pipeline.Spec
import CcReminder.Storage.Queue.StateMachine

/-!
# Leases and buckets

A claim takes a lease on each job that it hands out. The lease is live until it runs out, or until
an outcome is recorded for the job. At no time does a job have two live leases: the row of a leased
job is in `sending` until then, and a later claim takes it only when its lease is over.

A bucket is a key that the pipeline makes from the channel of the job, so the jobs of one bucket are
on one channel as long as SHA-256 has no collision among the inputs that were hashed for the keys.
-/

set_option autoImplicit true

namespace CcReminder

open Lib

/-- The lease on a job that a claim handed out. -/
structure Lease where
  job : Uuid
  since : DateTime
  until' : DateTime
  deriving DecidableEq

def Lease.LiveAt (l : Lease) (t : DateTime) : Prop := l.since ≤ t ∧ t < l.until'

instance (l : Lease) (t : DateTime) : Decidable (l.LiveAt t) := inferInstanceAs (Decidable (_ ∧ _))

/-- The leases that an operation hands out with its result. -/
def QueueOp.leases : QueueOp α → α → List Lease
  | .claimDue _ now lease _, claims => (claimedJobs claims).map fun job => ⟨job.id, now, now + lease⟩
  | _, _ => []

/-- What is hashed for the key of a bucket. -/
def bucketInput (base : String) (channelId : ChannelId) : List UInt8 :=
  utf8Bytes base ++ [0] ++ channelId.asBytes

/-- What is hashed for the keys of the jobs of a plan. -/
def Plan.bucketInputs (plan : Plan) : List (List UInt8) :=
  match aggregateOf plan.decision with
  | some (base, _) => plan.resolved.config.targets.map fun target => bucketInput base target.channelId
  | none => []

/-- The queue with the leases for which no outcome was recorded, the latest first, and the inputs
that were hashed for the keys of buckets. -/
structure Leases where
  conn : Conn
  held : List Lease
  hashed : List (List UInt8)

namespace Leases

def after (s : Leases) (o : QueueOp α) (a : α) (c' : Conn) : Leases where
  conn := c'
  held := o.leases a ++ s.held.filter fun l => l.job ∉ o.recorded
  hashed := s.hashed

/-- One step of a run: the pipeline queues the jobs of a plan, or an operation of the queue is
called, at any time and by any worker, or something else happens that leaves the jobs alone. -/
inductive Step (p : EventPipeline) : Leases → Leases → Prop
  | live {s : Leases} {fp : String} {plan : Plan} : Step p s
    { s with
      conn := (p.commitLive fp plan s.conn).2, hashed := plan.bucketInputs ++ s.hashed }
  | offline {s : Leases} {plan : Plan} : Step p s
    { s with conn := (p.commitSafe plan s.conn).2, hashed := plan.bucketInputs ++ s.hashed }
  | ok {s : Leases} {α : Type} {o : QueueOp α} {a : α} {c' : Conn}
    (henqueue : ∀ job, o.kind ≠ .enqueue job)
    (hlease : ∀ worker now lease n, o.kind = .claim worker now lease n → 0 < lease)
    (hrun : o.run p.sv.sha256 s.conn = (.ok a, c')) : Step p s (s.after o a c')
  | error {s : Leases} {α : Type} {o : QueueOp α} {e : AppError} {c' : Conn}
    (hrun : o.run p.sv.sha256 s.conn = (.error e, c')) : Step p s { s with conn := c' }
  | other {s : Leases} {c' : Conn} (hjobs : c'.db.deliveryJobs = s.conn.db.deliveryJobs) :
    Step p s { s with conn := c' }

abbrev Run (p : EventPipeline) : Leases → Leases → Prop := Relation.ReflTransGen (Step p)

def Initial (s : Leases) : Prop := s.conn.db.deliveryJobs = ∅ ∧ s.held = []

/-! ## The invariant -/

/-- A job that was leased until `t` is in `sending`, on this lease or on a later one. -/
def Sending (db : Database) (k : Uuid) (t : DateTime) : Prop :=
  ∃ j e, db.deliveryJobs.find? k = some j ∧ j.state = .sending ∧ j.leaseExpiresAt = some e ∧ t ≤ e

/-- The key of a bucket was made from the channel of the job. -/
def Keyed (sv : Services) (inputs : List (List UInt8)) (j : JobRow) : Prop :=
  ∀ key, j.aggregateKey = some key → ∃ base, key = perChannelAggregateKey sv base j.channelId ∧
    bucketInput base j.channelId ∈ inputs

structure Inv (p : EventPipeline) (s : Leases) : Prop where
  apart : s.held.Pairwise fun later earlier =>
    later.job = earlier.job → earlier.until' ≤ later.since
  sending : ∀ l ∈ s.held, Sending s.conn.db l.job l.until'
  keyed : ∀ k j, s.conn.db.deliveryJobs.find? k = some j → Keyed p.sv s.hashed j

theorem Keyed.mono {sv : Services} (h : Keyed sv inputs j) (hsub : inputs ⊆ inputs') :
    Keyed sv inputs' j := fun key hkey =>
  let ⟨base, hbase, hmem⟩ := h key hkey
  ⟨base, hbase, hsub hmem⟩

theorem Keyed.of_eq {sv : Services} (h : Keyed sv inputs j) (hkey : j'.aggregateKey = j.aggregateKey)
    (hchannel : j'.channelId = j.channelId) : Keyed sv inputs j' := by
  simp only [Keyed, hkey, hchannel]
  exact h

/-- What an operation does to a job in `sending`. -/
theorem sending_rowStep {sha256} {o : QueueOp α} (h : o.RowStep sha256 db a k (some j) r')
    (hs : j.state = .sending) (he : j.leaseExpiresAt = some e)
    (hlease : ∀ worker now lease n, o.kind = .claim worker now lease n → 0 < lease) :
    k ∈ o.recorded ∨ (k ∉ o.claimed a ∧ r' = some j) ∨
      ∃ worker now lease n, o.kind = .claim worker now lease n ∧ k ∈ o.claimed a ∧ e ≤ now ∧
        r' = some (j.toSending worker (now + lease)) := by
  cases h with
  | same hclaimed => exact .inr (.inl ⟨hclaimed, rfl⟩)
  | granted hkind hj hclaimed =>
    refine .inr (.inr ⟨_, _, _, _, hkind, hclaimed, ?_, rfl⟩)
    rcases hj.state with h | h | ⟨-, e', hle, he'⟩
    · simp [hs] at h
    · simp [hs] at h
    · obtain rfl : e = e' := by simpa [he] using he'
      exact hle
  | disturbed hkind hneg => exact absurd (hlease _ _ _ _ hkind) (Int.not_lt.mpr (Int.le_of_lt hneg))
  | settled hkind hk => exact .inl (by simpa [QueueOp.recorded, hkind] using hk)
  | swept _ hw => rcases JobRow.isWaiting_cases hw with h | h <;> simp [hs] at h
  | revived _ hf => simp [hs] at hf

/-! ## One step -/

section

variable {p : EventPipeline} {s : Leases}

/-- A change that keeps the rows that were there. -/
theorem Sending.of_keeps {db db' : Database} (h : Sending db k t)
    (hkeeps : ∀ k j, db.deliveryJobs.find? k = some j → db'.deliveryJobs.find? k = some j) :
    Sending db' k t :=
  let ⟨j, e, hj, hrest⟩ := h
  ⟨j, e, hkeeps k j hj, hrest⟩

/-- The jobs of a plan are new rows, under keys that were made from their channels. -/
theorem Inv.recorded {plan : Plan} {c' : Conn} (h : Inv p s)
    (hrec : plan.Recorded p.sv now s.conn.db c'.db) :
    Inv p { s with conn := c', hashed := plan.bucketInputs ++ s.hashed } := by
  have hsub : s.hashed ⊆ plan.bucketInputs ++ s.hashed := List.subset_append_right _ _
  rcases hrec.jobs with hsame | ⟨document, db₁, db₂, h₁, -, hq, h₂⟩
  · refine ⟨h.apart, fun l hl => (h.sending l hl).of_keeps fun k j hj => ?_, fun k j hj => ?_⟩
    · exact hsame ▸ hj
    · exact (h.keyed k j (hsame ▸ hj)).mono hsub
  · refine ⟨h.apart, fun l hl => (h.sending l hl).of_keeps fun k j hj => ?_, fun k j hj => ?_⟩
    · exact h₂ ▸ hq.keeps (h₁ ▸ hj)
    rcases hq.row (h₂ ▸ hj) with hj | ⟨target, htarget, id, createdAt, rfl⟩
    · exact (h.keyed k j (h₁ ▸ hj)).mono hsub
    intro key hkey
    simp only [DeliveryJob.toRow, jobFor, Option.map_eq_some_iff] at hkey
    obtain ⟨⟨base, release⟩, hbase, rfl⟩ := hkey
    refine ⟨base, rfl, List.mem_append_left _ ?_⟩
    simp only [Plan.bucketInputs, hbase]
    exact List.mem_map.mpr ⟨target, htarget, rfl⟩

/-- A change that leaves the jobs alone. -/
theorem Inv.of_jobs {c' : Conn} (h : Inv p s) (inputs : List (List UInt8))
    (hsub : s.hashed ⊆ inputs) (hjobs : c'.db.deliveryJobs = s.conn.db.deliveryJobs) :
    Inv p { s with conn := c', hashed := inputs } := by
  refine ⟨h.apart, fun l hl => (h.sending l hl).of_keeps fun k j hj => ?_, fun k j hj => ?_⟩
  · exact hjobs ▸ hj
  · exact (h.keyed k j (hjobs ▸ hj)).mono hsub

theorem mem_leases {o : QueueOp α} (h : l ∈ o.leases a) : l.job ∈ o.claimed a ∧
    ∃ worker now lease n, o.kind = .claim worker now lease n ∧ l.since = now ∧
      l.until' = now + lease := by
  cases o with
  | claimDue worker now lease n =>
    obtain ⟨job, hjob, rfl⟩ := List.mem_map.mp h
    exact ⟨List.mem_map_of_mem hjob, worker, now, lease, n, rfl, rfl, rfl⟩
  | _ => cases h

theorem leases_apart {sha256} {o : QueueOp α} (hrun : o.run sha256 c = (.ok a, c')) :
    (o.leases a).Pairwise fun l l' => l.job ≠ l'.job := by
  cases o with
  | claimDue worker now lease n =>
    have hnodup : ((claimedJobs a).map (·.id)).Nodup := (ensures_claimDue hrun).nodup
    exact List.pairwise_map.mpr (List.pairwise_map.mp hnodup)
  | _ => exact .nil

/-- An operation that hands a leased job out again comes after the end of its lease. -/
theorem Inv.call {α : Type} {o : QueueOp α} {a : α} {c' : Conn} (h : Inv p s)
    (henqueue : ∀ job, o.kind ≠ .enqueue job)
    (hlease : ∀ worker now lease n, o.kind = .claim worker now lease n → 0 < lease)
    (hrun : o.run p.sv.sha256 s.conn = (.ok a, c')) : Inv p (s.after o a c') := by
  have hrow := o.rowStep hrun
  refine ⟨?_, fun l hl => ?_, fun k j' hj' => ?_⟩
  · refine List.pairwise_append.mpr ⟨?_, h.apart.filter _, fun l hl l' hl' hjob => ?_⟩
    · exact (leases_apart hrun).imp fun hne heq => absurd heq hne
    -- the earlier lease is over, or the job would still be in `sending` on it
    obtain ⟨hl', hrec⟩ := List.mem_filter.mp hl'
    obtain ⟨hmem, worker, now, lease, n, hkind, hsince, -⟩ := mem_leases hl
    obtain ⟨j, e, hj, hs, he, hle⟩ := h.sending l' hl'
    have hstep := hrow l'.job
    rw [hj] at hstep
    rcases sending_rowStep hstep hs he hlease with hin | ⟨hout, -⟩ | ⟨_, now', _, _, hk, -, hnow, -⟩
    · simp [hin] at hrec
    · exact absurd (hjob ▸ hmem) hout
    · rw [hkind] at hk
      cases hk
      exact hle.trans (hsince ▸ hnow)
  · rcases List.mem_append.mp hl with hl | hl
    · obtain ⟨hmem, worker, now, lease, n, hkind, hsince, huntil⟩ := mem_leases hl
      cases o with
      | claimDue worker now lease n =>
        cases hkind
        obtain ⟨job, hjob, hid⟩ := List.mem_map.mp hmem
        obtain ⟨j, -, -, -, hj'⟩ := (ensures_claimDue hrun).granted job hjob
        exact ⟨_, now + lease, hid ▸ hj', rfl, rfl, huntil ▸ Int.le_refl _⟩
      | _ => cases hl
    obtain ⟨hl, hrec⟩ := List.mem_filter.mp hl
    obtain ⟨j, e, hj, hs, he, hle⟩ := h.sending l hl
    have hstep := hrow l.job
    rw [hj] at hstep
    rcases sending_rowStep hstep hs he hlease with
      hin | ⟨-, hj'⟩ | ⟨worker, now, lease, n, hkind, -, hnow, hj'⟩
    · simp [hin] at hrec
    · exact ⟨j, e, hj', hs, he, hle⟩
    · have hpos := hlease _ _ _ _ hkind
      refine ⟨_, now + lease, hj', rfl, rfl, ?_⟩
      dsimp only [DateTime, Duration] at *
      omega
  · have hstep := hrow k
    rw [show c'.db.deliveryJobs.find? k = some j' from hj'] at hstep
    cases hj : s.conn.db.deliveryJobs.find? k with
    | none =>
      rw [hj] at hstep
      cases hstep with
      | inserted hkind => exact absurd hkind (henqueue _)
    | some j =>
      rw [hj] at hstep
      obtain ⟨-, -, hchannel, -, -, hkey, -⟩ := hstep.static
      exact (h.keyed k j hj).of_eq hkey hchannel

theorem Step.inv {s' : Leases} (h : Step p s s') (hinv : Inv p s) : Inv p s' := by
  have hsub : ∀ plan : Plan, s.hashed ⊆ plan.bucketInputs ++ s.hashed :=
    fun plan => List.subset_append_right _ _
  cases h with
  | @live fp plan =>
    rcases hrun : p.commitLive fp plan s.conn with ⟨r, c'⟩
    cases EventPipeline.commitLive_run hrun with
    | error hdb => exact hinv.of_jobs _ (hsub plan) (by rw [hdb])
    | duplicate _ hdb => exact hinv.of_jobs _ (hsub plan) (by rw [hdb])
    | processed _ hrec => exact hinv.recorded hrec
  | @offline plan =>
    rcases hrun : p.commitSafe plan s.conn with ⟨r, c'⟩
    cases EventPipeline.commitSafe_run hrun with
    | error hdb => exact hinv.of_jobs _ (hsub plan) (by rw [hdb])
    | duplicate _ hdb => exact hinv.of_jobs _ (hsub plan) (by rw [hdb]; rfl)
    | processed _ hrec => exact hinv.recorded hrec
  | ok henqueue hlease hrun => exact hinv.call henqueue hlease hrun
  | error hrun => exact hinv.of_jobs _ (List.Subset.refl _) (by rw [QueueOp.run_error _ hrun])
  | other hjobs => exact hinv.of_jobs _ (List.Subset.refl _) hjobs

end

theorem Run.inv {p : EventPipeline} {s₀ s : Leases} (h : Run p s₀ s) (hinit : Initial s₀) :
    Inv p s := by
  induction h with
  | refl =>
    refine ⟨?_, fun l hl => ?_, fun k j hj => ?_⟩
    · simp [hinit.2]
    · simp [hinit.2] at hl
    · simp [hinit.1] at hj
  | tail _ hstep ih => exact hstep.inv ih

/-! ## Exclusivity and homogeneity -/

/-- Leases that follow one another are never live together. -/
theorem live_le_one {held : List Lease}
    (h : held.Pairwise fun later earlier => later.job = earlier.job → earlier.until' ≤ later.since) :
    (held.filter fun l => l.job = k ∧ l.LiveAt t).length ≤ 1 := by
  have hpair := h.filter fun l => l.job = k ∧ l.LiveAt t
  have hlive : ∀ l ∈ held.filter fun l => l.job = k ∧ l.LiveAt t, l.job = k ∧ l.LiveAt t :=
    fun l hl => of_decide_eq_true (List.mem_filter.mp hl).2
  generalize (held.filter fun l => l.job = k ∧ l.LiveAt t) = live at hpair hlive ⊢
  match live with
  | [] => exact Nat.zero_le 1
  | [_] => exact Nat.le_refl 1
  | l :: l' :: ls =>
    obtain ⟨hl, hsince⟩ := hlive l List.mem_cons_self
    obtain ⟨hl', huntil⟩ := hlive l' (List.mem_cons_of_mem _ List.mem_cons_self)
    have hle : l'.until' ≤ l.since :=
      (List.pairwise_cons.mp hpair).1 l' List.mem_cons_self (hl.trans hl'.symm)
    have hlt : t < t := huntil.2.trans_le (hle.trans hsince.1)
    exact absurd hlt (Int.lt_irrefl t)

/-- Keys of buckets that are equal were made for one channel. -/
theorem channel_eq {sv : Services} (hsha : Set.InjOn sv.sha256 {x | x ∈ inputs})
    (hi : Keyed sv inputs i) (hj : Keyed sv inputs j) (hikey : i.aggregateKey = some key)
    (hjkey : j.aggregateKey = some key) : i.channelId = j.channelId := by
  obtain ⟨base, rfl, hmem⟩ := hi key hikey
  obtain ⟨base', hkey, hmem'⟩ := hj _ hjkey
  have hinput : bucketInput base i.channelId = bucketInput base' j.channelId :=
    hsha hmem hmem' (hexEncode_injective hkey)
  have hbytes : i.channelId.asBytes = j.channelId.asBytes := by
    refine List.append_inj_right' hinput ?_
    simp [Uuid.asBytes]
  exact Uuid.asBytes_injective hbytes

/-- Without a collision the jobs of a bucket are on one channel. -/
theorem Inv.oneChannel {p : EventPipeline} {s : Leases} (h : Inv p s)
    (hsha : Set.InjOn p.sv.sha256 {x | x ∈ s.hashed}) : s.conn.db.OneChannel := by
  intro i hi j hj hkey hsame
  obtain ⟨key, hikey⟩ := Option.isSome_iff_exists.mp hkey
  exact channel_eq hsha (h.keyed j.id j (Table.mem_rows_iff.mp hj))
    (h.keyed i.id i (Table.mem_rows_iff.mp hi)) (hsame.trans hikey) hikey

def gathered (id : Uuid) : Plan where
  envelope := (Sample.event id).envelope
  encrypted := none
  resolved := { id := 1, version := "1", config := Sample.rule }
  decision := .aggregate "bucket" (Duration.seconds 60)
  globalTemplate := none

def committed (plan : Plan) (s : Leases) : Leases :=
  { s with
    conn := (Sample.pipeline.commitLive "fingerprint" plan s.conn).2,
    hashed := plan.bucketInputs ++ s.hashed }

theorem step_committed (plan : Plan) (s : Leases) : Step Sample.pipeline s (committed plan s) :=
  .live

def start : Leases := ⟨Sample.conn 0, [], []⟩

def both : Leases := committed (gathered 2) (committed (gathered 1) start)

theorem run_both : Run Sample.pipeline start both :=
  (Relation.ReflTransGen.single (step_committed _ _)).tail (step_committed _ _)

/-- The claim of the bucket, with the number of jobs in each delivery. -/
theorem claimed_both :
    (claimDue "worker" (Duration.seconds 60) (Duration.seconds 30) 8 both.conn).1.toOption.map
      (fun claims => claims.map (·.jobs.length)) = some [2] := by
  decide +kernel

end Leases

end CcReminder
