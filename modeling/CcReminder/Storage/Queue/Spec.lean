import CcReminder.Storage.Queue.Ops

/-!
# What the operations of the queue do

One lemma for each operation that succeeds. The jobs are described as a partial map
(`find?`), the attempts as a list; the invariants of the queue are derived from these lemmas and
never unfold an operation again. An operation that fails changes no table (`QueueOp.run_error`).
-/

set_option autoImplicit true

namespace CcReminder

open Lib

/-! ## Statements on one job -/

/-- An `UPDATE … WHERE p` as a map on the jobs. -/
theorem Database.updateJobs_eq {p : JobRow → Bool} {f : JobRow → JobRow} {hf}
    {db db' : Database} (h : db.updateJobs p f hf = (n, db')) :
    (∀ k, db'.deliveryJobs.find? k =
      (db.deliveryJobs.find? k).map fun j => if p j then f j else j) ∧
      db' = { db with deliveryJobs := db'.deliveryJobs } := by
  simp only [Database.updateJobs, Prod.mk.injEq] at h
  obtain ⟨-, rfl⟩ := h
  exact ⟨fun k => by rw [Table.find?_update], rfl⟩

/-- An `UPDATE … WHERE id = k AND q` changes nothing, or hits the job `k`. -/
theorem Database.updateJobs_one {q : JobRow → Prop} [DecidablePred q] {f : JobRow → JobRow} {hf}
    {db db' : Database} (h : db.updateJobs (fun j => j.id = k ∧ q j) f hf = (n, db')) :
    (n = 0 ∧ db' = db ∧ ∀ j, db.deliveryJobs.find? k = some j → ¬q j) ∨
    (n ≠ 0 ∧ db' = { db with deliveryJobs := db'.deliveryJobs } ∧
      ∃ j, db.deliveryJobs.find? k = some j ∧ q j ∧
        ∀ k', db'.deliveryJobs.find? k' =
          if k' = k then some (f j) else db.deliveryJobs.find? k') := by
  simp only [Database.updateJobs, Prod.mk.injEq] at h
  obtain ⟨rfl, rfl⟩ := h
  by_cases hn : db.deliveryJobs.count (fun j => j.id = k ∧ q j) = 0
  · refine .inl ⟨hn, ?_, fun j hj hq => ?_⟩
    · rw [Table.update_of_forall_not (Table.count_eq_zero_iff.mp hn)]
    · have := Table.count_eq_zero_iff.mp hn j (Table.find?_eq_some_iff.mp hj).1
      simp [Table.find?_key hj, hq] at this
  · refine .inr ⟨hn, rfl, ?_⟩
    obtain ⟨j, hj, hk⟩ : ∃ j ∈ db.deliveryJobs.rows, decide (j.id = k ∧ q j) = true := by
      by_contra hc
      push Not at hc
      exact hn (Table.count_eq_zero_iff.mpr fun r hr => by simpa using hc r hr)
    obtain ⟨rfl, hq⟩ := of_decide_eq_true hk
    refine ⟨j, Table.mem_rows_iff.mp hj, hq, fun k' => ?_⟩
    rw [Table.find?_update_one]
    split
    · rename_i hk'
      rw [hk', Table.mem_rows_iff.mp hj]
      simp [hq]
    · rfl

/-- One job was settled: its row `j`, which was in `sending`, became `j'`. -/
structure Database.JobBecomes (db : Database) (k : Uuid) (j j' : JobRow) (db' : Database) :
    Prop where
  before : db.deliveryJobs.find? k = some j
  after : ∀ k', db'.deliveryJobs.find? k' = if k' = k then some j' else db.deliveryJobs.find? k'

theorem ensures_settle {f : JobRow → JobRow} {hf} :
    Ensures (settle k f hf) fun db _ db' => ∃ j, j.state = .sending ∧
      db.JobBecomes k j (f j) db' ∧ db' = { db with deliveryJobs := db'.deliveryJobs } := by
  intro c a c' h
  obtain ⟨n, c₁, h₁, h₂⟩ := Txn.bind_ok_iff.mp h
  have hu := Database.updateJobs_one (ensures_execute h₁)
  split at h₂
  · simp at h₂
  · rename_i hn
    simp only [Txn.pure_run, Prod.mk.injEq] at h₂
    obtain ⟨-, rfl⟩ := h₂
    rcases hu with ⟨h0, -⟩ | ⟨-, hdb, j, hj, hs, hk⟩
    · exact absurd h0 hn
    · exact ⟨j, hs, ⟨hj, hk⟩, hdb⟩

theorem Database.insertAttempt_ok {db db' : Database} {row : AttemptRow}
    (h : db.insertAttempt row = .ok (u, db')) :
    db'.deliveryAttempts.rows = db.deliveryAttempts.rows ++ [row] ∧
      db' = { db with deliveryAttempts := db'.deliveryAttempts } := by
  unfold Database.insertAttempt at h
  split at h
  · cases h
  split at h
  · cases h
  split at h
  · rename_i t ht
    cases h
    exact ⟨(Table.insert?_eq_some_iff.mp ht).2, rfl⟩
  · cases h

/-- The next attempt of job `k` was recorded. -/
def Database.AttemptAdded (db : Database) (k : Uuid) (db' : Database) : Prop :=
  ∃ row : AttemptRow, row.jobId = k ∧ row.attemptNumber = db.nextAttemptNumber k ∧
    db'.deliveryAttempts.rows = db.deliveryAttempts.rows ++ [row]

theorem ensures_writeAttempt {record : AttemptRecord} :
    Ensures (writeAttempt k record t) fun db _ db' => db.AttemptAdded k db' ∧
      db' = { db with deliveryAttempts := db'.deliveryAttempts } := by
  intro c a c' h
  obtain ⟨n, c₁, h₁, h⟩ := Txn.bind_ok_iff.mp h
  obtain ⟨d, c₂, h₂, h₃⟩ := Txn.bind_ok_iff.mp h
  obtain ⟨rfl, hc₁⟩ := ensures_query h₁
  have hc₂ : c₂.db = c₁.db := ensures_draw h₂
  have hi := Database.insertAttempt_ok (ensures_statement h₃)
  rw [hc₂, hc₁] at hi
  exact ⟨⟨_, rfl, rfl, hi.1⟩, hi.2⟩

/-! ## Outcomes -/

/-- What a worker reports about a send. -/
inductive Outcome where
  | delivered (receipt : DeliveryReceipt)
  | retry (error : DeliveryError)
  | fail (error : DeliveryError)

/-- The classifier's decision about a row in `sending`. -/
def JobRow.decision (j : JobRow) (jitter : Jitter) (now : DateTime) (error : DeliveryError) :
    RetryDecision :=
  RetryPolicy.classify { jitter }
    { attempts := UInt8.ofNat j.attempts, expiresAt := j.expiresAt, classifiedAt := now } error

/-- `o.Settles now j j'`: recording the outcome `o` at `now` turns the row `j` into `j'`. -/
inductive Outcome.Settles (now : DateTime) (j : JobRow) : Outcome → JobRow → Prop
  | delivered : Settles now j (.delivered receipt) (j.toSucceeded now)
  | retryAt : j.decision jitter now error = .retryAt t →
    Settles now j (.retry error) (j.toRetryWait t error.code)
  | expire : j.decision jitter now error = .expire →
    Settles now j (.retry error) (j.toExpired now error.code)
  | giveUp : j.decision jitter now error = .fail →
    Settles now j (.retry error) (j.toFailed now error.code)
  | fail : Settles now j (.fail error) (j.toFailed now error.code)

/-- A recorded outcome ends the sending period. -/
theorem Outcome.Settles.state_ne {o : Outcome} (h : o.Settles now j j') : j'.state ≠ .sending := by
  cases h <;> simp [JobRow.toSucceeded, JobRow.toRetryWait, JobRow.toExpired, JobRow.toFailed]

/-- `db'` is `db` after the outcome `o` was recorded for the job `k`. -/
structure Database.Records (db : Database) (now : DateTime) (o : Outcome) (k : Uuid)
    (db' : Database) : Prop where
  job : ∃ j j', j.state = .sending ∧ o.Settles now j j' ∧ db.JobBecomes k j j' db'
  attempt : db.AttemptAdded k db'
  rest : db' = { db with
    channels := db'.channels, deliveryJobs := db'.deliveryJobs,
    deliveryAttempts := db'.deliveryAttempts }

theorem Database.updateChannelOf_eq {db db' : Database} {f : ChannelRow → ChannelRow} {hf}
    (h : db.updateChannelOf k f hf = (u, db')) : db' = { db with channels := db'.channels } := by
  unfold Database.updateChannelOf at h
  split at h <;> cases h <;> rfl

/-- A change to the channels alone does not undo the recording. -/
theorem Database.Records.channels {db : Database} {o : Outcome} (h : db.Records now o k db₁)
    (h₂ : db₂ = { db₁ with channels := db₂.channels }) : db.Records now o k db₂ := by
  obtain ⟨⟨j, j', hs, ho, hb, ha⟩, hat, hr⟩ := h
  rw [h₂]
  refine ⟨⟨j, j', hs, ho, hb, ha⟩, hat, ?_⟩
  conv_lhs => rw [hr]

/-- A settled job followed by its attempt. -/
theorem Database.Records.of_settle {f : JobRow → JobRow} {hf} {o : Outcome} {record : AttemptRecord}
    (h₁ : settle k f hf c = (.ok u, c₁)) (h₂ : writeAttempt k record t c₁ = (.ok v, c'))
    (hset : ∀ j, c.db.deliveryJobs.find? k = some j → o.Settles now j (f j)) :
    c.db.Records now o k c'.db := by
  obtain ⟨j, hs, ⟨hb, ha⟩, hc₁⟩ := ensures_settle h₁
  obtain ⟨hat, hc'⟩ := ensures_writeAttempt h₂
  rw [hc₁] at hat hc'
  rw [hc']
  exact ⟨⟨j, f j, hs, hset j hb, hb, ha⟩, hat, rfl⟩

theorem ensures_completeOne : Ensures (completeOne k receipt now) fun db _ db' =>
    db.Records now (.delivered receipt) k db' := by
  intro c a c' h
  obtain ⟨u, c₁, h₁, h₂⟩ := Txn.bind_ok_iff.mp h
  exact .of_settle h₁ h₂ fun _ _ => .delivered

theorem Database.Records.of_failOne {o : Outcome} (h : failOne k now error c = (.ok u, c'))
    (hset : ∀ j, c.db.deliveryJobs.find? k = some j → o.Settles now j (j.toFailed now error.code)) :
    c.db.Records now o k c'.db := by
  obtain ⟨u, c₁, h₁, h₂⟩ := Txn.bind_ok_iff.mp h
  exact .of_settle h₁ h₂ hset

theorem ensures_pauseChannelForAuth : Ensures (pauseChannelForAuth k reason now) fun db _ db' =>
    db' = { db with channels := db'.channels } :=
  ensures_execute.mono fun _ _ _ h => Database.updateChannelOf_eq h

theorem ensures_bumpChannelRateLimit : Ensures (bumpChannelRateLimit k retryAt) fun db _ db' =>
    db' = { db with channels := db'.channels } := by
  intro c a c' h
  obtain ⟨d, c₁, h₁, h₂⟩ := Txn.bind_ok_iff.mp h
  have hc₁ : c₁.db = c.db := ensures_draw h₁
  have he : c'.db = { c₁.db with channels := c'.db.channels } :=
    Database.updateChannelOf_eq (ensures_execute h₂)
  rw [hc₁] at he
  exact he

/-- The successful runs of `apply_retry` on the row `j`, by the decision about it. -/
inductive RetryRun (k : Uuid) (now : DateTime) (error : DeliveryError) (c : Conn) :
    RetryDecision → RetryOutcome → Conn → Prop
  | retryAt (hset : settle k (·.toRetryWait t error.code) (fun _ => rfl) c = (.ok u, c₁))
    (hwrite : writeAttempt k (.ofError error (some t)) now c₁ = (.ok v, c₂))
    (hcool : bumpChannelRateLimit k (some t) c₂ = (.ok w, c')) :
    RetryRun k now error c (.retryAt t) (.retryAt t) c'
  | fail (hkind : error.kind ≠ .authentication) (hfail : failOne k now error c = (.ok u, c')) :
    RetryRun k now error c .fail .fail c'
  | strike (hkind : error.kind = .authentication) (hfail : failOne k now error c = (.ok u, c₁))
    (hpause : pauseChannelForAuth k PAUSE_AUTH_REASON now c₁ = (.ok v, c')) :
    RetryRun k now error c .fail .fail c'
  | expire (hset : settle k (·.toExpired now error.code) (fun _ => rfl) c = (.ok u, c₁))
    (hwrite : writeAttempt k (.ofError error none) now c₁ = (.ok v, c')) :
    RetryRun k now error c .expire .fail c'

/-- `apply_retry` reads the row in `sending`, draws the jitter, and does what the decision says. -/
theorem applyRetry_cases (h : applyRetry k now error c = (.ok r, c')) : ∃ j n c₁,
    c.db.deliveryJobs.find? k = some j ∧ j.state = .sending ∧ c₁.db = c.db ∧ c.Precedes c₁ ∧
      RetryRun k now error c₁ (j.decision (c.world n).jitter now error) r c' := by
  obtain ⟨row, c₁, h₁, h⟩ := Txn.bind_ok_iff.mp h
  obtain ⟨hrow, hc₁⟩ := ensures_query h₁
  have hp₁ : c.Precedes c₁ := Advances.statement.ok h₁
  cases row with
  | none => simp at h
  | some j =>
    obtain ⟨hj, hs⟩ := Option.filter_eq_some_iff.mp hrow.symm
    obtain ⟨d, c₂, h₂, h⟩ := Txn.bind_ok_iff.mp h
    have hc₂ : c₂.db = c₁.db := ensures_draw h₂
    have hp₂ : c.Precedes c₂ := hp₁.trans (Advances.draw.ok h₂)
    obtain ⟨n, hn⟩ : ∃ n, d = c.world n := by
      cases h₂
      exact hp₁.draw 0
    refine ⟨j, n, c₂, hj, of_decide_eq_true hs, hc₂.trans hc₁, hp₂, ?_⟩
    dsimp only at h
    rw [← hn]
    cases hd : j.decision d.jitter now error with
    | retryAt t =>
      rw [JobRow.decision] at hd
      rw [hd] at h
      obtain ⟨u₁, c₃, h₃, h⟩ := Txn.bind_ok_iff.mp h
      obtain ⟨u₂, c₄, h₄, h⟩ := Txn.bind_ok_iff.mp h
      obtain ⟨u₃, c₅, h₅, h₆⟩ := Txn.bind_ok_iff.mp h
      obtain ⟨rfl, rfl⟩ := by simpa using h₆
      exact .retryAt h₃ h₄ h₅
    | pauseChannel reason => exact absurd hd RetryPolicy.classify_ne_pauseChannel
    | fail =>
      rw [JobRow.decision] at hd
      rw [hd] at h
      obtain ⟨u₁, c₃, h₃, h⟩ := Txn.bind_ok_iff.mp h
      split at h
      · rename_i hkind
        obtain ⟨u₂, c₄, h₄, h₅⟩ := Txn.bind_ok_iff.mp h
        obtain ⟨rfl, rfl⟩ := by simpa using h₅
        exact .strike hkind h₃ h₄
      · rename_i hkind
        obtain ⟨rfl, rfl⟩ := by simpa using h
        exact .fail hkind h₃
    | expire =>
      rw [JobRow.decision] at hd
      rw [hd] at h
      obtain ⟨u₁, c₃, h₃, h⟩ := Txn.bind_ok_iff.mp h
      obtain ⟨u₂, c₄, h₄, h₅⟩ := Txn.bind_ok_iff.mp h
      obtain ⟨rfl, rfl⟩ := by simpa using h₅
      exact .expire h₃ h₄

theorem ensures_applyRetry : Ensures (applyRetry k now error) fun db _ db' =>
    db.Records now (.retry error) k db' := by
  intro c a c' h
  obtain ⟨j, n, c₁, hj, -, hdb, -, hrun⟩ := applyRetry_cases h
  have hset {o : Outcome} {f : JobRow → JobRow} (ho : o.Settles now j (f j)) :
      ∀ j', c₁.db.deliveryJobs.find? k = some j' → o.Settles now j' (f j') := fun j' h' => by
    obtain rfl : j = j' := by simpa [hdb, hj] using h'
    exact ho
  rw [← hdb]
  generalize hd : j.decision (c.world n).jitter now error = d at hrun
  cases hrun with
  | retryAt h₁ h₂ h₃ =>
    exact (Database.Records.of_settle h₁ h₂ (hset (.retryAt hd))).channels
      (ensures_bumpChannelRateLimit h₃)
  | fail _ h₁ => exact .of_failOne h₁ (hset (.giveUp hd))
  | strike _ h₁ h₂ =>
    exact (Database.Records.of_failOne h₁ (hset (.giveUp hd))).channels
      (ensures_pauseChannelForAuth h₂)
  | expire h₁ h₂ => exact .of_settle h₁ h₂ (hset (.expire hd))

/-- The outcome `o` was recorded for each job of a list in turn. -/
inductive Database.RecordsEach (now : DateTime) (o : Outcome) :
    Database → List Uuid → Database → Prop
  | nil : RecordsEach now o db [] db
  | cons {db db₁ db₂ : Database} {k : Uuid} {ks : List Uuid} :
    db.Records now o k db₁ → RecordsEach now o db₁ ks db₂ → RecordsEach now o db (k :: ks) db₂

theorem Database.Records.each {db : Database} (h : db.Records now o k db') :
    db.RecordsEach now o [k] db' := .cons h .nil

theorem ensures_each_completeOne : ∀ ks,
    Ensures (.each (fun k => completeOne k receipt now) ks) fun db _ db' =>
      db.RecordsEach now (.delivered receipt) ks db' :=
  Txn.Ensures.each (R := fun ks (c c' : Conn) => c.db.RecordsEach now (.delivered receipt) ks c'.db)
    (fun _ => .nil) fun _ _ _ _ _ h₁ h₂ => .cons (ensures_completeOne h₁) h₂

theorem ensures_retryEach : ∀ ks last, Ensures (retryEach now error ks last) fun db _ db' =>
    db.RecordsEach now (.retry error) ks db'
  | [], _ => Ensures.ret fun _ => .nil
  | _ :: ks, _ => ensures_applyRetry.bind (fun last => ensures_retryEach ks last)
      fun _ _ _ _ _ h₁ h₂ => .cons h₁ h₂

theorem ensures_fail : Ensures (fail k now error) fun db _ db' =>
    db.Records now (.fail error) k db' := by
  refine ensures_immediate fun c a c' h => ?_
  obtain ⟨u, c₁, h₁, h₂⟩ := Txn.bind_ok_iff.mp h
  have hrec := Database.Records.of_failOne (o := .fail error) h₁ fun _ _ => .fail
  split at h₂
  · exact hrec.channels (ensures_pauseChannelForAuth h₂)
  · obtain ⟨-, rfl⟩ := by simpa using h₂
    exact hrec

/-! ## Enqueue, sweep, manual retry -/

theorem Database.insertJob_ok {db db' : Database} {row : JobRow}
    (h : db.insertJob row = .ok (u, db')) :
    db.deliveryJobs.find? row.id = none ∧
      (∀ j ∈ db.deliveryJobs.rows, j.idempotencyKey ≠ row.idempotencyKey) ∧
      (∀ k, db'.deliveryJobs.find? k = if k = row.id then some row else db.deliveryJobs.find? k) ∧
      db' = { db with deliveryJobs := db'.deliveryJobs } := by
  unfold Database.insertJob at h
  split at h
  · cases h
  rename_i hkey
  split at h
  · cases h
  split at h
  · rename_i t ht
    cases h
    exact ⟨(Table.insert?_eq_some_iff.mp ht).1, by simpa using hkey,
      fun k => Table.find?_insert? ht, rfl⟩
  · cases h

/-- `db'` is `db` after `enqueue` of `job`, which returned `r`: a job with the same idempotency
key was there, or a fresh row was added. -/
inductive Database.Enqueues (sha256 : List UInt8 → List UInt8) (db : Database) (job : DeliveryJob) :
    EnqueueResult → Database → Prop
  | known (h : j ∈ db.deliveryJobs.rows)
    (hk : j.idempotencyKey = idempotencyKey sha256 job.eventId job.ruleVersion job.channelId) :
    Enqueues sha256 db job (.alreadyExists j.id) db
  | inserted (hrow : row = job.toRow
      (idempotencyKey sha256 job.eventId job.ruleVersion job.channelId) now)
    (hnew : db.deliveryJobs.find? job.id = none)
    (hkey : ∀ j ∈ db.deliveryJobs.rows, j.idempotencyKey ≠ row.idempotencyKey)
    (hjobs : ∀ k, db'.deliveryJobs.find? k =
      if k = job.id then some row else db.deliveryJobs.find? k)
    (hrest : db' = { db with deliveryJobs := db'.deliveryJobs }) :
    Enqueues sha256 db job (.inserted job.id) db'

theorem Database.Enqueues.attempts {sha256} {db db' : Database}
    (h : db.Enqueues sha256 job r db') : db'.deliveryAttempts = db.deliveryAttempts := by
  cases h with
  | known => rfl
  | inserted _ _ _ _ hrest => rw [hrest]

theorem ensures_enqueueInTx {sha256} : Ensures (enqueueInTx sha256 job) fun db r db' =>
    db.Enqueues sha256 job r db' := by
  intro c a c' h
  obtain ⟨d, c₁, h₁, h⟩ := Txn.bind_ok_iff.mp h
  have hc₁ : c₁.db = c.db := ensures_draw h₁
  obtain ⟨found, c₂, h₂, h⟩ := Txn.bind_ok_iff.mp h
  obtain ⟨hfound, hc₂⟩ := ensures_query h₂
  rw [← hc₁, ← hc₂]
  rw [← hc₂] at hfound
  cases found with
  | some k =>
    obtain ⟨rfl, rfl⟩ := by simpa using h
    obtain ⟨j, hj, rfl⟩ := Option.map_eq_some_iff.mp hfound.symm
    exact .known (List.mem_of_find?_eq_some hj) (by simpa using List.find?_some hj)
  | none =>
    obtain ⟨u, c₃, h₃, h₄⟩ := Txn.bind_ok_iff.mp h
    obtain ⟨rfl, rfl⟩ := by simpa using h₄
    obtain ⟨hnew, hkey, hjobs, hrest⟩ := Database.insertJob_ok (ensures_statement h₃)
    exact .inserted rfl hnew hkey hjobs hrest

theorem ensures_expireDue : Ensures (expireDue now) fun db _ db' =>
    (∀ k, db'.deliveryJobs.find? k = (db.deliveryJobs.find? k).map fun j =>
      if j.isWaiting ∧ j.expiresAt ≤ now then j.sweep now else j) ∧
      db' = { db with deliveryJobs := db'.deliveryJobs } := by
  refine ensures_immediate (ensures_execute.mono fun db n db' h => ?_)
  simpa only [decide_eq_true_eq] using Database.updateJobs_eq h

theorem ensures_manualRetry : Ensures (manualRetry k now) fun db _ db' => ∃ j,
    j.state = .failed ∧ db.JobBecomes k j (j.revive now) db' ∧
      db' = { db with deliveryJobs := db'.deliveryJobs } := by
  refine ensures_immediate fun c a c' h => ?_
  obtain ⟨row, c₁, h₁, h⟩ := Txn.bind_ok_iff.mp h
  obtain ⟨-, hc₁⟩ := ensures_query h₁
  rw [← hc₁]
  cases row with
  | none => simp at h
  | some row =>
    obtain ⟨state, paused, nextAllowed⟩ := row
    dsimp only at h
    split at h
    · simp at h
    split at h
    · simp at h
    split at h
    · simp at h
    split at h
    · simp at h
    obtain ⟨n, c₂, h₂, h₃⟩ := Txn.bind_ok_iff.mp h
    split at h₃
    · simp at h₃
    · rename_i hn
      obtain ⟨-, rfl⟩ := by simpa using h₃
      rcases Database.updateJobs_one (ensures_execute h₂) with ⟨h0, -⟩ | ⟨-, hdb, j, hj, hs, hk⟩
      · exact absurd h0 hn
      · exact ⟨j, hs, ⟨hj, hk⟩, hdb⟩

theorem ensures_updateChannel {f : ChannelRow → ChannelRow} {hf} :
    Ensures (updateChannel channelId f hf) fun db _ db' =>
      db' = { db with channels := db'.channels } := by
  refine ensures_connect.bind (fun _ => ensures_execute) fun db _ db₁ _ db' h₁ h₂ => ?_
  simp only [Prod.mk.injEq, true_and] at h₂
  rw [← h₂, h₁]

end CcReminder
