import CcReminder.Storage.Queue.Backoff
import CcReminder.Storage.Queue.Channels

/-!
# Retrying an aggregate

`retry_aggregate` classifies the jobs of a bucket one by one, each with its own attempts, expiry
and jitter. `SharedDecision` says when the decisions come out the same, in terms of the rows and
of the jitter drawn for each; exactly then the bucket stays together.
-/

set_option autoImplicit true

namespace CcReminder

open Lib

/-! ## One row -/

/-- The row after `apply_retry`, by the decision about it. -/
def JobRow.settled (j : JobRow) (now : DateTime) (code : String) : RetryDecision → JobRow
  | .retryAt t => j.toRetryWait t code
  | .expire => j.toExpired now code
  | .fail | .pauseChannel _ => j.toFailed now code

def RetryDecision.outcome : RetryDecision → RetryOutcome
  | .retryAt t => .retryAt t
  | .expire | .fail | .pauseChannel _ => .fail

/-- A retry is still possible as far as the error and the attempt limit go. -/
def JobRow.mayRetry (j : JobRow) (error : DeliveryError) : Prop :=
  RetryPolicy.isRetryable error = true ∧ UInt8.ofNat j.attempts < MAX_ATTEMPTS

/-- When the next attempt of the row would be. -/
def JobRow.nextAttempt (j : JobRow) (jitter : Jitter) (now : DateTime) (error : DeliveryError) :
    DateTime :=
  RetryPolicy.nextAttemptAt { jitter } now (UInt8.ofNat j.attempts) error

theorem JobRow.decision_cases (j : JobRow) (jitter : Jitter) (now : DateTime)
    (error : DeliveryError) :
    (j.decision jitter now error = .expire ∧ (j.expiresAt ≤ now ∨
      j.mayRetry error ∧ j.expiresAt < j.nextAttempt jitter now error)) ∨
    (j.decision jitter now error = .fail ∧ now < j.expiresAt ∧ ¬j.mayRetry error) ∨
    (j.decision jitter now error = .retryAt (j.nextAttempt jitter now error) ∧
      now < j.expiresAt ∧ j.mayRetry error ∧ j.nextAttempt jitter now error ≤ j.expiresAt) := by
  unfold decision RetryPolicy.classify mayRetry
  split
  · rename_i hexp
    exact .inl ⟨rfl, .inl hexp⟩
  rename_i hexp
  have hlive : now < j.expiresAt := Int.not_le.mp hexp
  split
  · rename_i hret
    exact .inr (.inl ⟨rfl, hlive, fun h => by simp [h.1] at hret⟩)
  rename_i hret
  have hret : RetryPolicy.isRetryable error = true := by simpa using hret
  split
  · rename_i hatt
    exact .inr (.inl ⟨rfl, hlive, fun h => absurd h.2 (UInt8.not_lt.mpr hatt)⟩)
  rename_i hatt
  have hmay : RetryPolicy.isRetryable error = true ∧ UInt8.ofNat j.attempts < MAX_ATTEMPTS :=
    ⟨hret, UInt8.not_le.mp hatt⟩
  dsimp only
  split
  · rename_i hlate
    exact .inl ⟨rfl, .inr ⟨hmay, hlate⟩⟩
  · rename_i hlate
    exact .inr (.inr ⟨rfl, hlive, hmay, Int.not_lt.mp hlate⟩)

theorem JobRow.decision_eq_expire_iff {j : JobRow} : j.decision jitter now error = .expire ↔
    j.expiresAt ≤ now ∨ j.mayRetry error ∧ j.expiresAt < j.nextAttempt jitter now error := by
  rcases j.decision_cases jitter now error with ⟨hd, h⟩ | ⟨hd, hlive, h⟩ | ⟨hd, hlive, hmay, h⟩
  · simp [hd, h]
  · simp [hd, h, hlive]
  · simp [hd, hmay, hlive, h]

theorem JobRow.decision_eq_fail_iff {j : JobRow} : j.decision jitter now error = .fail ↔
    now < j.expiresAt ∧ ¬j.mayRetry error := by
  rcases j.decision_cases jitter now error with ⟨hd, h⟩ | ⟨hd, hlive, h⟩ | ⟨hd, hlive, hmay, h⟩
  · simp only [hd, reduceCtorEq, false_iff, not_and, not_not]
    exact fun hlive => h.elim (fun hle => absurd hlive (Int.not_lt.mpr hle)) (·.1)
  · simp [hd, h, hlive]
  · simp [hd, hmay]

theorem JobRow.decision_eq_retryAt_iff {j : JobRow} : j.decision jitter now error = .retryAt t ↔
    now < j.expiresAt ∧ j.mayRetry error ∧ j.nextAttempt jitter now error = t ∧
      t ≤ j.expiresAt := by
  rcases j.decision_cases jitter now error with ⟨hd, h⟩ | ⟨hd, hlive, h⟩ | ⟨hd, hlive, hmay, h⟩
  · simp only [hd, reduceCtorEq, false_iff, not_and, not_le]
    rintro hlive - rfl
    exact h.elim (fun hle => absurd hlive (Int.not_lt.mpr hle)) (·.2)
  · simp [hd, h]
  · simp only [hd, RetryDecision.retryAt.injEq, hlive, hmay, true_and]
    constructor
    · rintro rfl
      exact ⟨rfl, h⟩
    · exact (·.1)

theorem JobRow.settled_retryWait_iff {j : JobRow} {d : RetryDecision} :
    (j.settled now code d).state = .retryWait ∧ (j.settled now code d).nextAttemptAt = t ↔
      d = .retryAt t := by
  cases d <;> simp [settled, toRetryWait, toExpired, toFailed]

theorem JobRow.settled_expired_iff {j : JobRow} {d : RetryDecision} :
    (j.settled now code d).state = .expired ↔ d = .expire := by
  cases d <;> simp [settled, toRetryWait, toExpired, toFailed]

theorem JobRow.settled_failed_iff {j : JobRow} :
    (j.settled now code (j.decision jitter now error)).state = .failed ↔
      j.decision jitter now error = .fail := by
  cases hd : j.decision jitter now error with
  | pauseChannel => exact absurd hd RetryPolicy.classify_ne_pauseChannel
  | retryAt | expire | fail => simp [settled, toRetryWait, toExpired, toFailed]

/-- One constituent: its row and the outcome are those of the decision with a jitter of its own. -/
theorem applyRetry_settles (h : applyRetry k now error c = (.ok r, c')) : ∃ j n,
    r = (j.decision (c.world n).jitter now error).outcome ∧
      c.db.JobBecomes k j (j.settled now error.code (j.decision (c.world n).jitter now error))
        c'.db := by
  obtain ⟨j, n, c₁, hj, -, hdb, -, hrun⟩ := applyRetry_cases h
  have hbecomes {f : JobRow → JobRow} {hf c₂ c₃} {record : AttemptRecord}
      (h₁ : settle k f hf c₁ = (.ok (), c₂)) (h₂ : writeAttempt k record now c₂ = (.ok (), c₃)) :
      c.db.JobBecomes k j (f j) c₃.db := by
    obtain ⟨j₀, -, ⟨hb, ha⟩, -⟩ := ensures_settle h₁
    obtain ⟨-, hc₃⟩ := ensures_writeAttempt h₂
    obtain rfl : j = j₀ := by simpa [hdb, hj] using hb
    refine ⟨hj, fun k' => ?_⟩
    rw [hc₃, ← hdb]
    exact ha k'
  have hchannels {j' : JobRow} {db db' : Database} (hb : c.db.JobBecomes k j j' db)
      (hch : db' = { db with channels := db'.channels }) : c.db.JobBecomes k j j' db' := by
    rw [hch]
    exact ⟨hb.before, hb.after⟩
  refine ⟨j, n, ?_⟩
  generalize hd : j.decision (c.world n).jitter now error = d at hrun
  cases hrun with
  | retryAt h₁ h₂ h₃ => exact ⟨rfl, hchannels (hbecomes h₁ h₂) (ensures_bumpChannelRateLimit h₃)⟩
  | fail _ h₁ =>
    obtain ⟨⟨⟩, c₂, h₂, h₃⟩ := Txn.bind_ok_iff.mp h₁
    exact ⟨rfl, hbecomes h₂ h₃⟩
  | strike _ h₁ h₄ =>
    obtain ⟨⟨⟩, c₂, h₂, h₃⟩ := Txn.bind_ok_iff.mp h₁
    exact ⟨rfl, hchannels (hbecomes h₂ h₃) (ensures_pauseChannelForAuth h₄)⟩
  | expire h₁ h₂ => exact ⟨rfl, hbecomes h₁ h₂⟩

/-! ## All of them -/

/-- Each job of `ids` became what the decision with its jitter makes of it. -/
def SettlesEach (jitters : Uuid → Jitter) (now : DateTime) (error : DeliveryError) (ids : List Uuid)
    (db db' : Database) : Prop :=
  ∀ k ∈ ids, ∃ j, db.deliveryJobs.find? k = some j ∧ db'.deliveryJobs.find? k =
    some (j.settled now error.code (j.decision (jitters k) now error))

/-- The jobs of a bucket are in one state after a failed send, due at one time when they are to be
retried, and the outcome that was reported is theirs. -/
inductive Uniform (db : Database) (ids : List Uuid) : RetryOutcome → Prop
  | retryAt (h : ∀ k ∈ ids, ∃ j, db.deliveryJobs.find? k = some j ∧
      (j.state = .retryWait ∧ j.nextAttemptAt = t)) : Uniform db ids (.retryAt t)
  | fail (hstate : state = .failed ∨ state = .expired)
    (h : ∀ k ∈ ids, ∃ j, db.deliveryJobs.find? k = some j ∧ j.state = state) :
    Uniform db ids .fail

/-- The jobs are all past their time to live, or would be by their next attempt; or all of them are
alive and none may be retried; or all may be, at one time. -/
inductive SharedDecision (jitters : Uuid → Jitter) (now : DateTime) (error : DeliveryError)
    (ids : List Uuid) (db : Database) : Prop
  | expire (h : ∀ k ∈ ids, ∀ j, db.deliveryJobs.find? k = some j → j.expiresAt ≤ now ∨
      j.mayRetry error ∧ j.expiresAt < j.nextAttempt (jitters k) now error)
  | fail (h : ∀ k ∈ ids, ∀ j, db.deliveryJobs.find? k = some j →
      now < j.expiresAt ∧ ¬j.mayRetry error)
  | retryAt (t : DateTime) (h : ∀ k ∈ ids, ∀ j, db.deliveryJobs.find? k = some j →
      now < j.expiresAt ∧ j.mayRetry error ∧ j.nextAttempt (jitters k) now error = t ∧
        t ≤ j.expiresAt)

/-- A delay that the server asked for is the same for all jobs, so they share the decision when
their expiries and attempts agree. -/
theorem SharedDecision.of_retryAfter (hafter : retryAfterDuration error = some delay)
    (hsame : ∀ k ∈ ids, ∀ j, db.deliveryJobs.find? k = some j →
      j.expiresAt = expiresAt ∧ j.attempts = attempts) :
    SharedDecision jitters now error ids db := by
  have hnext : ∀ k (j : JobRow), j.nextAttempt (jitters k) now error = now + delay := fun k j => by
    simp [JobRow.nextAttempt, RetryPolicy.nextAttemptAt, hafter]
  by_cases hexp : expiresAt ≤ now
  · exact .expire fun k hk j hj => .inl ((hsame k hk j hj).1 ▸ hexp)
  have hlive : now < expiresAt := Int.not_le.mp hexp
  by_cases hmay : RetryPolicy.isRetryable error = true ∧ UInt8.ofNat attempts < MAX_ATTEMPTS
  · by_cases hlate : expiresAt < now + delay
    · refine .expire fun k hk j hj => .inr ?_
      obtain ⟨rfl, rfl⟩ := hsame k hk j hj
      exact ⟨hmay, hnext k j ▸ hlate⟩
    · refine .retryAt (now + delay) fun k hk j hj => ?_
      obtain ⟨rfl, rfl⟩ := hsame k hk j hj
      exact ⟨hlive, hmay, hnext k j, Int.not_lt.mp hlate⟩
  · refine .fail fun k hk j hj => ?_
    obtain ⟨rfl, rfl⟩ := hsame k hk j hj
    exact ⟨hlive, hmay⟩

/-- The loop settles each job with a jitter of the stream, and returns the outcome of the last. -/
theorem retryEach_settles : ∀ {ids last c r c'}, retryEach now error ids last c = (.ok r, c') →
    ∃ jitters : Uuid → Jitter, (∀ k ∈ ids, ∃ n, jitters k = (c.world n).jitter) ∧
      SettlesEach jitters now error ids c.db c'.db ∧
      ∀ o, (ids = [] → last = o) → (∀ k ∈ ids, ∀ j, c.db.deliveryJobs.find? k = some j →
        (j.decision (jitters k) now error).outcome = o) → r = o
  | [], last, c, r, c', h => by
    obtain ⟨rfl, rfl⟩ := by simpa [retryEach] using h
    exact ⟨fun _ => default, by simp, by simp [SettlesEach], fun o hlast _ => hlast rfl⟩
  | k :: ks, last, c, r, c', h => by
    have hnodup : k ∉ ks :=
      (List.nodup_cons.mp (retryEach_retries h).recordsEach.jobs.1).1
    obtain ⟨last', c₁, h₁, h₂⟩ := Txn.bind_ok_iff.mp h
    obtain ⟨j, n, hr, hb, ha⟩ := applyRetry_settles h₁
    obtain ⟨jitters, hdraws, hsettles, hlast⟩ := retryEach_settles h₂
    have hprec : c.Precedes c₁ := Advances.applyRetry.ok h₁
    have hrest : ∀ k' ∈ ks, Function.update jitters k (c.world n).jitter k' = jitters k' ∧
        c₁.db.deliveryJobs.find? k' = c.db.deliveryJobs.find? k' := fun k' hk' => by
      have hne : k' ≠ k := fun heq => hnodup (heq ▸ hk')
      exact ⟨Function.update_of_ne hne _ _, by rw [ha, if_neg hne]⟩
    have hkept : c'.db.deliveryJobs.find? k = c₁.db.deliveryJobs.find? k :=
      (retryEach_retries h₂).recordsEach.jobs.2.2 k hnodup
    refine ⟨Function.update jitters k (c.world n).jitter, fun k' hk' => ?_, fun k' hk' => ?_,
      fun o _ ho => ?_⟩
    · rcases List.mem_cons.mp hk' with rfl | hk'
      · exact ⟨n, Function.update_self _ _ _⟩
      · obtain ⟨m, hm⟩ := hdraws k' hk'
        obtain ⟨m', hm'⟩ := hprec.draw m
        exact ⟨m', by rw [(hrest k' hk').1, hm, hm']⟩
    · rcases List.mem_cons.mp hk' with rfl | hk'
      · exact ⟨j, hb, by rw [hkept, ha, if_pos rfl, Function.update_self]⟩
      · obtain ⟨j', hj', hj''⟩ := hsettles k' hk'
        exact ⟨j', (hrest k' hk').2 ▸ hj', by rw [(hrest k' hk').1, hj'']⟩
    · refine hlast o (fun _ => ?_) fun k' hk' j' hj' => ?_
      · have := ho k List.mem_cons_self j hb
        rw [Function.update_self] at this
        exact hr.trans this
      · have := ho k' (List.mem_cons_of_mem _ hk') j' ((hrest k' hk').2 ▸ hj')
        rwa [(hrest k' hk').1] at this

/-- **An aggregate stays together exactly when its jobs share the decision.** After
`retry_aggregate` each job is what the decision with the jitter drawn for it says. -/
theorem retryAggregate_uniform_iff (h : retryAggregate claim now error c = (.ok r, c')) :
    ∃ jitters : Uuid → Jitter,
      (∀ k ∈ claim.constituentIds, ∃ n, jitters k = (c.world n).jitter) ∧
      SettlesEach jitters now error claim.constituentIds c.db c'.db ∧
      (Uniform c'.db claim.constituentIds r ↔
        SharedDecision jitters now error claim.constituentIds c.db) := by
  obtain ⟨c₁, h₁, rfl⟩ := immediate_ok h
  obtain ⟨jitters, hdraws, hsettles, hlast⟩ := retryEach_settles h₁
  refine ⟨jitters, fun k hk => ?_, hsettles, ?_, ?_⟩
  · obtain ⟨n, hn⟩ := hdraws k hk
    exact ⟨n + 2, hn⟩
  · -- the state of each row tells the decision about it
    have hrow : ∀ k ∈ claim.constituentIds, ∀ j, c.db.deliveryJobs.find? k = some j →
        ∀ j', c₁.db.deliveryJobs.find? k = some j' →
        j' = j.settled now error.code (j.decision (jitters k) now error) := by
      intro k hk j hj j' hj'
      obtain ⟨j₀, hj₀, hj₀'⟩ := hsettles k hk
      obtain rfl : j₀ = j := Option.some.inj (hj₀.symm.trans hj)
      exact Option.some.inj (hj'.symm.trans hj₀')
    rintro (⟨hall⟩ | ⟨rfl | rfl, hall⟩)
    · rename_i t
      refine .retryAt t fun k hk j hj => ?_
      obtain ⟨j', hj', hstate⟩ := hall k hk
      rw [hrow k hk j hj j' hj'] at hstate
      exact JobRow.decision_eq_retryAt_iff.mp (JobRow.settled_retryWait_iff.mp hstate)
    · refine .fail fun k hk j hj => ?_
      obtain ⟨j', hj', hstate⟩ := hall k hk
      rw [hrow k hk j hj j' hj'] at hstate
      exact JobRow.decision_eq_fail_iff.mp (JobRow.settled_failed_iff.mp hstate)
    · refine .expire fun k hk j hj => ?_
      obtain ⟨j', hj', hstate⟩ := hall k hk
      rw [hrow k hk j hj j' hj'] at hstate
      exact JobRow.decision_eq_expire_iff.mp (JobRow.settled_expired_iff.mp hstate)
  · have hfail : claim.constituentIds = [] → r = .fail → Uniform c₁.db claim.constituentIds r := by
      rintro hnil rfl
      exact .fail (.inl rfl) (by simp [hnil])
    by_cases hnil : claim.constituentIds = []
    · have hr : r = .fail := hlast .fail (fun _ => rfl) (by simp [hnil])
      exact fun _ => hfail hnil hr
    rintro (hall | hall | ⟨t, hall⟩)
    · have hr : r = .fail := hlast .fail (fun _ => rfl) fun k hk j hj => by
        rw [JobRow.decision_eq_expire_iff.mpr (hall k hk j hj)]
        rfl
      subst hr
      refine .fail (.inr rfl) fun k hk => ?_
      obtain ⟨j, hj, hj'⟩ := hsettles k hk
      exact ⟨_, hj', JobRow.settled_expired_iff.mpr (JobRow.decision_eq_expire_iff.mpr (hall k hk j hj))⟩
    · have hr : r = .fail := hlast .fail (fun _ => rfl) fun k hk j hj => by
        rw [JobRow.decision_eq_fail_iff.mpr (hall k hk j hj)]
        rfl
      subst hr
      refine .fail (.inl rfl) fun k hk => ?_
      obtain ⟨j, hj, hj'⟩ := hsettles k hk
      exact ⟨_, hj', JobRow.settled_failed_iff.mpr (JobRow.decision_eq_fail_iff.mpr (hall k hk j hj))⟩
    · have hr : r = .retryAt t := hlast _ (fun h => absurd h hnil) fun k hk j hj => by
        rw [JobRow.decision_eq_retryAt_iff.mpr (hall k hk j hj)]
        rfl
      subst hr
      refine .retryAt fun k hk => ?_
      obtain ⟨j, hj, hj'⟩ := hsettles k hk
      exact ⟨_, hj', JobRow.settled_retryWait_iff.mpr (JobRow.decision_eq_retryAt_iff.mpr (hall k hk j hj))⟩

namespace Aggregate

/-- The two jobs of a bucket, as they are claimed. -/
def claim : ClaimedDelivery :=
  .aggregate "bucket" [Sample.job 1 (some "bucket"), Sample.job 2 (some "bucket")]

/-- The queue after the claim. -/
def claimed : Clocked := Clocked.ops id Clocked.bucket Clocked.start

theorem claimed_run : ∃ r c', retryAggregate claim (Duration.seconds 1) Sample.timeout claimed.conn =
    (.ok r, c') ∧ r = .retryAt (Duration.milliseconds 1200) ∧
      (c'.db.deliveryJobs.find? 1).map (·.nextAttemptAt) = some (Duration.milliseconds 2800) := by
  obtain ⟨c', hrun⟩ := run_get (x := retryAggregate claim (Duration.seconds 1) Sample.timeout)
    (c := claimed.conn) (by decide +kernel)
  refine ⟨_, c', hrun, by decide +kernel, ?_⟩
  have hdb : c' = (retryAggregate claim (Duration.seconds 1) Sample.timeout claimed.conn).2 := by
    rw [hrun]
  rw [hdb]
  decide +kernel

/-- Both jobs of the bucket time out a second after the claim. One is to wait until 2.8 s and the
other until 1.2 s, which is the outcome that is reported. -/
theorem not_uniform : Reach Clocked.Initial (Clocked.Step id) (fun _ _ => True) claimed ∧
    claimed.handed.map (·.2.id) = claim.constituentIds ∧ ∃ r c',
      retryAggregate claim (Duration.seconds 1) Sample.timeout claimed.conn = (.ok r, c') ∧
        ¬Uniform c'.db claim.constituentIds r := by
  refine ⟨Clocked.reach_ops _ _ (.start ⟨rfl, rfl, rfl⟩), by decide +kernel, ?_⟩
  obtain ⟨r, c', hrun, rfl, hfirst⟩ := claimed_run
  refine ⟨_, c', hrun, ?_⟩
  rintro (⟨hall⟩ | _)
  obtain ⟨j, hj, -, hnext⟩ := hall 1 (by decide)
  rw [hj, Option.map_some, hnext] at hfirst
  exact absurd hfirst (by decide)

/-- What the theorem says about this bucket. -/
theorem claimed_uniform_iff : ∃ (r : RetryOutcome) (c' : Conn) (jitters : Uuid → Jitter),
    (∀ k ∈ claim.constituentIds, ∃ n, jitters k = (claimed.conn.world n).jitter) ∧
      SettlesEach jitters (Duration.seconds 1) Sample.timeout claim.constituentIds claimed.conn.db
        c'.db ∧
      (Uniform c'.db claim.constituentIds r ↔
        SharedDecision jitters (Duration.seconds 1) Sample.timeout claim.constituentIds
          claimed.conn.db) := by
  obtain ⟨r, c', hrun, -⟩ := claimed_run
  exact ⟨r, c', retryAggregate_uniform_iff hrun⟩

end Aggregate

end CcReminder
