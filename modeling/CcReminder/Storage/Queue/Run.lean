import CcReminder.Storage.Queue.Claim
import Mathlib.Logic.Relation

/-!
# Steps and runs of the queue

`QueueOp.rowStep` says once what an operation can do to the row of a job; every invariant of the
queue is derived from it by its seven cases. `QueueOp.attempts` does the same for the attempts. A
run (`QueueRun`) is any sequence of operations, between which the other tables and the clock may
change in any way.
-/

set_option autoImplicit true

namespace CcReminder

open Lib

/-! ## Operations by kind -/

/-- What an operation asks for: `enqueue` and `enqueue_in_tx` are of one kind, and so are the six
operations that record an outcome. -/
inductive OpKind where
  | enqueue (job : DeliveryJob)
  | claim (worker : String) (now : DateTime) (lease : Duration) (maxBatches : Nat)
  | report (now : DateTime) (outcome : Outcome) (jobIds : List Uuid)
  | sweep (now : DateTime)
  | manualRetry (jobId : Uuid) (now : DateTime)
  | channel

namespace QueueOp

def kind : QueueOp α → OpKind
  | .enqueue job | .enqueueInTx job => .enqueue job
  | .claimDue worker now lease maxBatches => .claim worker now lease maxBatches
  | .complete jobId now receipt => .report now (.delivered receipt) [jobId]
  | .completeAggregate claim now receipt => .report now (.delivered receipt) claim.constituentIds
  | .retry jobId now error => .report now (.retry error) [jobId]
  | .retryAggregate claim now error => .report now (.retry error) claim.constituentIds
  | .fail jobId now error => .report now (.fail error) [jobId]
  | .expireDue now => .sweep now
  | .manualRetry jobId now => .manualRetry jobId now
  | .setChannelNextAllowed .. | .bumpAuthFailure .. | .resetAuthFailures .. => .channel

/-- The jobs for which an operation records an outcome. -/
def recorded (o : QueueOp α) : List Uuid :=
  match o.kind with
  | .report _ _ jobIds => jobIds
  | _ => []

/-- The jobs that an operation handed out with its result. -/
def claimed : QueueOp α → α → List Uuid
  | .claimDue .., claims => (claimedJobs claims).map (·.id)
  | _, _ => []

/-- The jobs that an operation hands out, each with the time of the claim. -/
def handsOutAt : QueueOp α → α → List (DateTime × DeliveryJob)
  | .claimDue _ now _ _, claims => (claimedJobs claims).map (now, ·)
  | _, _ => []

variable {sha256 : List UInt8 → List UInt8}

/-- An operation that fails leaves every table as it was. -/
theorem run_error (o : QueueOp α) (h : o.run sha256 c = (.error e, c')) : c'.db = c.db := by
  cases o with
  | enqueue => exact immediate_error h
  | enqueueInTx =>
    simp only [run, CcReminder.enqueueInTx, Txn.bind_run] at h
    rcases h₁ : draw c with ⟨e₁ | d, c₁⟩
    · simp [draw] at h₁
    have hc₁ : c₁.db = c.db := ensures_draw h₁
    simp only [h₁] at h
    rw [← hc₁]
    split at h
    · rename_i found c₂ h₂
      have hc₂ := (ensures_query h₂).2
      rw [← hc₂]
      cases found with
      | some k => simp at h
      | none =>
        simp only [Txn.bind_run] at h
        split at h
        · simp at h
        · rename_i h₃
          cases h
          exact statement_error h₃
    · rename_i h₂
      cases h
      exact statement_error h₂
  | claimDue worker now lease n =>
    simp only [run, CcReminder.claimDue] at h
    split at h
    · simp at h
    · exact immediate_error h
  | complete => exact immediate_error h
  | completeAggregate => exact immediate_error h
  | retry => exact immediate_error h
  | retryAggregate => exact immediate_error h
  | fail => exact immediate_error h
  | expireDue => exact immediate_error h
  | manualRetry => exact immediate_error h
  | setChannelNextAllowed => exact connect_statement_error h
  | bumpAuthFailure => exact connect_statement_error h
  | resetAuthFailures => exact connect_statement_error h

/-- The six operations that record an outcome do nothing else. -/
theorem ensures_report {o : QueueOp α} (hkind : o.kind = .report now out ks) :
    Ensures (o.run sha256) fun db _ db' => db.RecordsEach now out ks db' := by
  cases o <;> simp only [kind, OpKind.report.injEq, reduceCtorEq] at hkind
  case complete =>
    obtain ⟨rfl, rfl, rfl⟩ := hkind
    exact ensures_immediate (ensures_completeOne.mono fun _ _ _ h => h.each)
  case completeAggregate =>
    obtain ⟨rfl, rfl, rfl⟩ := hkind
    exact ensures_immediate (ensures_each_completeOne _)
  case retry =>
    obtain ⟨rfl, rfl, rfl⟩ := hkind
    exact ensures_immediate (ensures_applyRetry.mono fun _ _ _ h => h.each)
  case retryAggregate =>
    obtain ⟨rfl, rfl, rfl⟩ := hkind
    exact ensures_immediate (ensures_retryEach _ _)
  case fail =>
    obtain ⟨rfl, rfl, rfl⟩ := hkind
    exact ensures_fail.mono fun _ _ _ h => h.each

end QueueOp

/-! ## Outcomes for several jobs -/

namespace Database

theorem RecordsEach.rest {db db' : Database} (h : db.RecordsEach now o ks db') : db' = { db with
    channels := db'.channels, deliveryJobs := db'.deliveryJobs,
    deliveryAttempts := db'.deliveryAttempts } := by
  induction h with
  | nil => rfl
  | cons h _ ih =>
    rw [h.rest] at ih
    exact ih

theorem Enqueues.rest {sha256} {db db' : Database} (h : db.Enqueues sha256 job r db') : db' = { db with
    channels := db'.channels, deliveryJobs := db'.deliveryJobs,
    deliveryAttempts := db'.deliveryAttempts } := by
  cases h with
  | known => rfl
  | inserted _ _ _ _ hrest => rw [hrest]

/-- When an outcome is recorded for each job of a list, the jobs are distinct, all of them were
in `sending`, and the others keep their rows. -/
theorem RecordsEach.jobs {db db' : Database} (h : db.RecordsEach now o ks db') : ks.Nodup ∧
    (∀ k ∈ ks, ∃ j j', db.deliveryJobs.find? k = some j ∧ j.state = .sending ∧
      o.Settles now j j' ∧ db'.deliveryJobs.find? k = some j') ∧
    ∀ k ∉ ks, db'.deliveryJobs.find? k = db.deliveryJobs.find? k := by
  induction h with
  | nil => exact ⟨.nil, by simp, by simp⟩
  | @cons db db₁ db₂ k ks hrec _ ih =>
    obtain ⟨hnd, hin, hout⟩ := ih
    obtain ⟨j, j', hs, ho, hj, hfind⟩ := hrec.job
    have hj' : db₁.deliveryJobs.find? k = some j' := (hfind k).trans (if_pos rfl)
    -- the job was settled already, so it does not come again
    have hk : k ∉ ks := by
      intro hk
      obtain ⟨j₁, -, hj₁, hs₁, -⟩ := hin k hk
      obtain rfl : j' = j₁ := by simpa [hj'] using hj₁
      exact ho.state_ne hs₁
    have hne : ∀ k', k' ≠ k → db₁.deliveryJobs.find? k' = db.deliveryJobs.find? k' :=
      fun k' h => (hfind k').trans (if_neg h)
    refine ⟨List.nodup_cons.mpr ⟨hk, hnd⟩, fun k' hk' => ?_, fun k' hk' => ?_⟩
    · rcases List.mem_cons.mp hk' with rfl | hmem
      · exact ⟨j, j', hj, hs, ho, (hout k' hk).trans hj'⟩
      · obtain ⟨j₁, j₂, hj₁, h⟩ := hin k' hmem
        exact ⟨j₁, j₂, (hne k' (by rintro rfl; exact hk hmem)) ▸ hj₁, h⟩
    · rw [List.mem_cons, not_or] at hk'
      rw [hout k' hk'.2, hne k' hk'.1]

/-- The attempts of each job are numbered from one without a gap. -/
def Numbered (db : Database) : Prop :=
  ∀ k, (db.attemptsOf k).map (·.attemptNumber) = List.range' 1 (db.attemptsOf k).length

theorem foldr_max_range' (n : Nat) : (List.range' 1 n).foldr max 0 = n := by
  induction n with
  | zero => rfl
  | succ n ih =>
    have h : ∀ (l : List Nat) (m : Nat), l.foldr max m = max (l.foldr max 0) m := by
      intro l m
      induction l with
      | nil => simp
      | cons a l ih => simp [ih, Nat.max_assoc]
    rw [List.range'_concat, List.foldr_append, h, ih]
    simp
    omega

theorem Numbered.nextAttemptNumber {db : Database} (h : db.Numbered) (k : Uuid) :
    db.nextAttemptNumber k = (db.attemptsOf k).length + 1 := by
  rw [Database.nextAttemptNumber, h k, foldr_max_range']

theorem attemptsOf_congr {db db' : Database} (h : db'.deliveryAttempts = db.deliveryAttempts) :
    db'.attemptsOf k = db.attemptsOf k := by rw [attemptsOf, attemptsOf, h]

theorem AttemptAdded.attemptsOf {db db' : Database} (h : db.AttemptAdded k db') : ∃ row,
    row.attemptNumber = db.nextAttemptNumber k ∧ ∀ k',
      db'.attemptsOf k' = db.attemptsOf k' ++ if k' = k then [row] else [] := by
  obtain ⟨row, rfl, hn, hrows⟩ := h
  refine ⟨row, hn, fun k' => ?_⟩
  rw [Database.attemptsOf, hrows, List.filter_append, ← Database.attemptsOf]
  by_cases hk : k' = row.jobId
  · simp [hk]
  · simp [hk, Ne.symm hk]

theorem Numbered.attemptAdded {db db' : Database} (h : db.Numbered) (ha : db.AttemptAdded k db') :
    db'.Numbered := by
  obtain ⟨row, hn, hrows⟩ := ha.attemptsOf
  intro k'
  rw [hrows k']
  split
  · rename_i hk
    rw [List.map_append, h k', List.length_append, List.map_singleton, hn, hk,
      h.nextAttemptNumber k, List.length_singleton, List.range'_concat, Nat.add_comm, Nat.one_mul]
  · simpa using h k'

/-- Each recorded outcome adds one attempt to its job. -/
theorem RecordsEach.attempts {db db' : Database} (h : db.RecordsEach now o ks db') :
    (db.Numbered → db'.Numbered) ∧ ∀ k, ∃ rows, db'.attemptsOf k = db.attemptsOf k ++ rows ∧
      rows.length = ks.count k := by
  induction h with
  | nil => exact ⟨id, fun k => ⟨[], by simp, by simp⟩⟩
  | @cons db db₁ db₂ k ks hrec _ ih =>
    refine ⟨fun hnum => ih.1 (hnum.attemptAdded hrec.attempt), fun k' => ?_⟩
    obtain ⟨row, -, hrow⟩ := hrec.attempt.attemptsOf
    obtain ⟨rows, hrows, hlen⟩ := ih.2 k'
    refine ⟨_, by rw [hrows, hrow, List.append_assoc], ?_⟩
    rw [List.length_append, hlen, List.count_cons]
    by_cases hk : k' = k
    · simp [hk, Nat.add_comm]
    · simp [hk, Ne.symm hk]

end Database

/-! ## One step -/

/-- `o.RowStep sha256 db a k r r'`: when the operation `o` returns `a` on the tables `db`, the row
of the job `k` goes from `r` to `r'`. -/
inductive QueueOp.RowStep (sha256 : List UInt8 → List UInt8) (db : Database) (o : QueueOp α)
    (a : α) (k : Uuid) : Option JobRow → Option JobRow → Prop
  | same (hclaimed : k ∉ o.claimed a) (hrecorded : k ∉ o.recorded) : RowStep sha256 db o a k r r
  | inserted {job : DeliveryJob} (hkind : o.kind = .enqueue job) (hid : job.id = k) :
    RowStep sha256 db o a k none (some (job.toRow
      (idempotencyKey sha256 job.eventId job.ruleVersion job.channelId) now))
  | granted (hkind : o.kind = .claim worker now lease n) (hj : db.isCandidate now j)
    (hclaimed : k ∈ o.claimed a) :
    RowStep sha256 db o a k (some j) (some (j.toSending worker (now + lease)))
  | disturbed (hkind : o.kind = .claim worker now lease n) (hlease : lease < 0)
    (hj : db.isCandidate now j) (hclaimed : k ∉ o.claimed a)
    (hj' : j.Disturbed worker now (now + lease) j') : RowStep sha256 db o a k (some j) (some j')
  | settled (hkind : o.kind = .report now out ks) (hk : k ∈ ks) (hj : j.state = .sending)
    (hj' : out.Settles now j j') : RowStep sha256 db o a k (some j) (some j')
  | swept (hkind : o.kind = .sweep now) (hj : j.isWaiting) (hexp : j.expiresAt ≤ now) :
    RowStep sha256 db o a k (some j) (some (j.sweep now))
  | revived (hkind : o.kind = .manualRetry k now) (hj : j.state = .failed) :
    RowStep sha256 db o a k (some j) (some (j.revive now))

namespace QueueOp

variable {sha256 : List UInt8 → List UInt8}

theorem rowStep_of_enqueues {o : QueueOp α} {db db' : Database} {job : DeliveryJob}
    (hkind : o.kind = .enqueue job) (hclaimed : o.claimed a = [])
    (h : db.Enqueues sha256 job r db') (k : Uuid) :
    o.RowStep sha256 db a k (db.deliveryJobs.find? k) (db'.deliveryJobs.find? k) := by
  have hsame : ∀ r, o.RowStep sha256 db a k r r := fun r =>
    .same (by simp [hclaimed]) (by simp [recorded, hkind])
  cases h with
  | known => exact hsame _
  | inserted hrow hnew hkey hjobs hrest =>
    rw [hjobs k]
    split
    · rename_i hk
      rw [hk, hnew, hrow]
      exact .inserted hkind rfl
    · exact hsame _

theorem rowStep_of_records {o : QueueOp α} {db db' : Database}
    (hkind : o.kind = .report now out ks) (hclaimed : o.claimed a = [])
    (h : db.RecordsEach now out ks db') (k : Uuid) :
    o.RowStep sha256 db a k (db.deliveryJobs.find? k) (db'.deliveryJobs.find? k) := by
  obtain ⟨-, hin, hout⟩ := h.jobs
  by_cases hk : k ∈ ks
  · obtain ⟨j, j', hj, hs, ho, hj'⟩ := hin k hk
    rw [hj, hj']
    exact .settled hkind hk hs ho
  · rw [hout k hk]
    exact .same (by simp [hclaimed]) (by simpa [recorded, hkind] using hk)

theorem rowStep_of_grants {o : QueueOp α} {db db' : Database} {jobs : List DeliveryJob}
    (hkind : o.kind = .claim worker now lease n) (hclaimed : o.claimed a = jobs.map (·.id))
    (h : db.Grants worker now (now + lease) (db.isCandidate now) jobs db') (k : Uuid) :
    o.RowStep sha256 db a k (db.deliveryJobs.find? k) (db'.deliveryJobs.find? k) := by
  by_cases hk : k ∈ o.claimed a
  · obtain ⟨job, hjob, rfl⟩ := List.mem_map.mp (hclaimed ▸ hk)
    obtain ⟨j, hj, hp, -, hj'⟩ := h.granted job hjob
    rw [hj, hj']
    exact .granted hkind hp hk
  · rcases h.others k (hclaimed ▸ hk) with heq | ⟨hL, j, j', hj, hp, hj', hd⟩
    · rw [heq]
      exact .same hk (by simp [recorded, hkind])
    · rw [hj, hj']
      exact .disturbed hkind (add_lt_iff_neg_left.mp hL) hp hk hd

/-- **Inversion.** What an operation that succeeds does to the row of each job. -/
theorem rowStep (o : QueueOp α) (h : o.run sha256 c = (.ok a, c')) (k : Uuid) :
    o.RowStep sha256 c.db a k (c.db.deliveryJobs.find? k) (c'.db.deliveryJobs.find? k) := by
  cases o with
  | enqueue => exact rowStep_of_enqueues rfl rfl (ensures_immediate ensures_enqueueInTx h) k
  | enqueueInTx => exact rowStep_of_enqueues rfl rfl (ensures_enqueueInTx h) k
  | claimDue => exact rowStep_of_grants rfl rfl (ensures_claimDue h) k
  | complete => exact rowStep_of_records rfl rfl (ensures_report rfl h) k
  | completeAggregate => exact rowStep_of_records rfl rfl (ensures_report rfl h) k
  | retry => exact rowStep_of_records rfl rfl (ensures_report rfl h) k
  | retryAggregate => exact rowStep_of_records rfl rfl (ensures_report rfl h) k
  | fail => exact rowStep_of_records rfl rfl (ensures_report rfl h) k
  | expireDue now =>
    rw [(ensures_expireDue h).1 k]
    cases c.db.deliveryJobs.find? k with
    | none => exact .same (by simp [claimed]) (by simp [recorded, kind])
    | some j =>
      rw [Option.map_some]
      split
      · rename_i hj
        exact .swept rfl hj.1 hj.2
      · exact .same (by simp [claimed]) (by simp [recorded, kind])
  | manualRetry id now =>
    obtain ⟨j, hs, ⟨hj, hfind⟩, -⟩ := ensures_manualRetry h
    rw [hfind k]
    split
    · rename_i hk
      rw [hk, hj]
      exact .revived rfl hs
    · exact .same (by simp [claimed]) (by simp [recorded, kind])
  | setChannelNextAllowed =>
    rw [show c'.db = _ from ensures_updateChannel h]
    exact .same (by simp [claimed]) (by simp [recorded, kind])
  | bumpAuthFailure =>
    rw [show c'.db = _ from ensures_updateChannel h]
    exact .same (by simp [claimed]) (by simp [recorded, kind])
  | resetAuthFailures =>
    rw [show c'.db = _ from ensures_updateChannel h]
    exact .same (by simp [claimed]) (by simp [recorded, kind])

/-- An operation that succeeds adds one attempt for each outcome it records. -/
theorem attempts (o : QueueOp α) (h : o.run sha256 c = (.ok a, c')) :
    (c.db.Numbered → c'.db.Numbered) ∧
      ∀ k, ∃ rows, c'.db.attemptsOf k = c.db.attemptsOf k ++ rows ∧
        rows.length = o.recorded.count k := by
  have hreport : ∀ {now out ks}, o.kind = .report now out ks →
      (c.db.Numbered → c'.db.Numbered) ∧
        ∀ k, ∃ rows, c'.db.attemptsOf k = c.db.attemptsOf k ++ rows ∧
          rows.length = o.recorded.count k := by
    intro now out ks hkind
    simpa only [recorded, hkind] using (ensures_report hkind h).attempts
  have hsame : o.recorded = [] → c'.db.deliveryAttempts = c.db.deliveryAttempts →
      (c.db.Numbered → c'.db.Numbered) ∧
        ∀ k, ∃ rows, c'.db.attemptsOf k = c.db.attemptsOf k ++ rows ∧
          rows.length = o.recorded.count k := by
    intro hrec heq
    refine ⟨fun hnum k => ?_, fun k => ⟨[], ?_, by simp [hrec]⟩⟩
    · rw [Database.attemptsOf_congr heq]
      exact hnum k
    · rw [Database.attemptsOf_congr heq, List.append_nil]
  cases o with
  | enqueue => exact hsame rfl (ensures_immediate ensures_enqueueInTx h).attempts
  | enqueueInTx => exact hsame rfl (ensures_enqueueInTx h).attempts
  | claimDue => exact hsame rfl (by rw [(ensures_claimDue h).rest])
  | complete => exact hreport rfl
  | completeAggregate => exact hreport rfl
  | retry => exact hreport rfl
  | retryAggregate => exact hreport rfl
  | fail => exact hreport rfl
  | expireDue => exact hsame rfl (by rw [(ensures_expireDue h).2])
  | manualRetry =>
    obtain ⟨-, -, -, hrest⟩ := ensures_manualRetry h
    exact hsame rfl (by rw [hrest])
  | setChannelNextAllowed => exact hsame rfl (by rw [show c'.db = _ from ensures_updateChannel h])
  | bumpAuthFailure => exact hsame rfl (by rw [show c'.db = _ from ensures_updateChannel h])
  | resetAuthFailures => exact hsame rfl (by rw [show c'.db = _ from ensures_updateChannel h])

/-- The tables that the queue writes to. -/
theorem frame (o : QueueOp α) (h : o.run sha256 c = (r, c')) : c'.db = { c.db with
    channels := c'.db.channels, deliveryJobs := c'.db.deliveryJobs,
    deliveryAttempts := c'.db.deliveryAttempts } := by
  rcases r with e | a
  · rw [o.run_error h]
  have hreport : ∀ {now out ks}, o.kind = .report now out ks → _ := fun hkind =>
    (ensures_report hkind h).rest
  cases o with
  | enqueue => exact (ensures_immediate ensures_enqueueInTx h).rest
  | enqueueInTx => exact (ensures_enqueueInTx h).rest
  | claimDue => rw [(ensures_claimDue h).rest]
  | complete => exact hreport rfl
  | completeAggregate => exact hreport rfl
  | retry => exact hreport rfl
  | retryAggregate => exact hreport rfl
  | fail => exact hreport rfl
  | expireDue => rw [(ensures_expireDue h).2]
  | manualRetry =>
    obtain ⟨-, -, -, hrest⟩ := ensures_manualRetry h
    rw [hrest]
  | setChannelNextAllowed => rw [show c'.db = _ from ensures_updateChannel h]
  | bumpAuthFailure => rw [show c'.db = _ from ensures_updateChannel h]
  | resetAuthFailures => rw [show c'.db = _ from ensures_updateChannel h]

end QueueOp

/-! ## Runs -/

/-- One step of a run: an operation, whatever it returns, or a change that leaves the jobs and
their attempts alone. -/
inductive QueueStep (sha256 : List UInt8 → List UInt8) : Conn → Conn → Prop
  | op (o : QueueOp α) : QueueStep sha256 c (o.run sha256 c).2
  | other (hjobs : c'.db.deliveryJobs = c.db.deliveryJobs)
    (hattempts : c'.db.deliveryAttempts = c.db.deliveryAttempts) : QueueStep sha256 c c'

/-- A run of the queue. -/
abbrev QueueRun (sha256 : List UInt8 → List UInt8) : Conn → Conn → Prop :=
  Relation.ReflTransGen (QueueStep sha256)

/-- Run a list of operations. -/
def runOps (sha256 : List UInt8 → List UInt8) : List ((α : Type) × QueueOp α) → Conn → Conn
  | [], c => c
  | ⟨_, o⟩ :: os, c => runOps sha256 os (o.run sha256 c).2

theorem QueueRun.ofOps {sha256} : ∀ os c, QueueRun sha256 c (runOps sha256 os c)
  | [], _ => .refl
  | ⟨_, o⟩ :: os, c => .head (.op o) (QueueRun.ofOps os (o.run sha256 c).2)

/-! ## A small system

One channel, three events, a clock that stands still, and no delivery yet. -/

namespace Sample

def event (id : Uuid) : EventRow where
  envelope := {
    id, source := .claudeCode, sourceVersion := { major := 2, minor := 0, patch := 0 },
    sourceEvent := "Stop", category := .completion, occurredAt := 0, receivedAt := 0,
    projectId := none, projectDisplayName := none, unmatchedCwdFingerprint := none,
    sessionRef := none, turnRef := none, model := none, permissionMode := none,
    severity := .info, publicFields := [], encryptedSensitiveFields := none,
    correlationId := id, actionId := none, actionCapabilities := [] }
  sensitiveFieldsBlob := none
  processingOutcome := .queued
  outcomeReasonCode := none
  createdAt := 0

def start : Conn where
  db := {
    channels := ⟨[{ id := 1 }], by decide⟩
    events := ⟨[event 1, event 2, event 3], by decide⟩ }
  world n := { uuid := n }

/-- The job of an event: due at once, alive for an hour, in the bucket `key` if there is one. -/
def job (id : Uuid) (key : Option String) : DeliveryJob where
  id := id
  eventId := id
  ruleId := 1
  ruleVersion := "1"
  channelId := 1
  idempotencyKey := ""
  document := { title := "", severity := .info, facts := [], body := "", footer := none }
  state := .pending
  attempts := 0
  nextAttemptAt := 0
  expiresAt := Duration.minutes 60
  leaseOwner := none
  leaseExpiresAt := none
  aggregateKey := key
  aggregateReleaseAt := key.map fun _ => 0

def timeout : DeliveryError where
  kind := .timeout
  code := "delivery.timeout"
  redactedMessage := ""
  httpStatus := none
  platformCode := none
  retryAfterSeconds := none

end Sample

end CcReminder
