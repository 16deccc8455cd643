import CcReminder.Storage.Lockstep
import CcReminder.Storage.Queue.Channels
import CcReminder.Storage.Queue.StateMachine

/-!
# Reports that succeed

A report of an outcome is turned down when its job is not in `sending`. When the job is, it is
recorded, unless a statement fails or a fresh identifier is not fresh.
-/

set_option autoImplicit true

namespace CcReminder

open Lib

namespace Conn.Quiet

variable {c : Conn}

theorem pause (h : c.Quiet) (k : Uuid) (error : DeliveryError) (now : DateTime) : ∃ c',
    (if error.kind = .authentication then CcReminder.pauseChannelForAuth k PAUSE_AUTH_REASON now
      else pure () : Tx Unit) c = (.ok (), c') := by
  split
  · exact ⟨_, h.execute⟩
  · exact ⟨c, rfl⟩

/-- A transaction whose body succeeds is committed. -/
theorem immediate {body : Tx α} (h : c.Quiet) (hadvances : Advances body)
    (hbody : body (c.skip 2) = (.ok a, c')) : ∃ c', immediate body c = (.ok a, c') :=
  have hend : (c'.world 0).fault = false := (h.skip 2).precedes (hadvances.ok hbody) 0
  ⟨_, immediate_ok_iff.mpr ⟨h 0, h 1, c', hbody, hend, rfl⟩⟩

end Conn.Quiet

/-- No statement fails, and what is drawn as the identifier of an attempt is not one yet. -/
structure Conn.Ready (c : Conn) : Prop where
  quiet : c.Quiet
  fresh : ∀ n, c.db.deliveryAttempts.find? (c.world n).uuid = none

/-- Each outcome of the job can be recorded. -/
def Database.CanRecord (db : Database) (k : Uuid) : Prop :=
  ∀ (c : Conn) (now : DateTime), c.db = db → c.Ready →
    (∀ receipt, ∃ c', complete k now receipt c = (.ok (), c')) ∧
    (∀ error, ∃ outcome c', retry k now error c = (.ok outcome, c')) ∧
    ∀ error, ∃ c', fail k now error c = (.ok (), c')

namespace Advances

theorem query {f : Database → α} : Advances (query f) := statement

theorem execute {f : Database → α × Database} : Advances (execute f) := statement

theorem completeOne : Advances (completeOne k receipt now) := settle.bind fun _ => writeAttempt

theorem failOneAndPause : Advances (do
    CcReminder.failOne k now error
    if error.kind = .authentication then CcReminder.pauseChannelForAuth k PAUSE_AUTH_REASON now) := by
  refine failOne.bind fun _ => ?_
  split
  · exact execute
  · exact pure _

end Advances

/-- The next number of an attempt is a new one. -/
theorem Database.nextAttemptNumber_fresh (db : Database) (k : Uuid) :
    (db.attemptsOf k).any (·.attemptNumber = db.nextAttemptNumber k) = false := by
  have hle : ∀ (ns : List Nat), ∀ n ∈ ns, n ≤ ns.foldr max 0 := by
    intro ns
    induction ns with
    | nil => simp
    | cons m ns ih =>
      rw [List.forall_mem_cons]
      exact ⟨Nat.le_max_left _ _, fun n hn => (ih n hn).trans (Nat.le_max_right _ _)⟩
  rw [List.any_eq_false]
  intro a ha heq
  have hnumber : a.attemptNumber = db.nextAttemptNumber k := of_decide_eq_true heq
  have hmax := hle _ _ (List.mem_map_of_mem (f := (·.attemptNumber)) ha)
  rw [Database.nextAttemptNumber] at hnumber
  omega

/-- An attempt under a fresh identifier is inserted. -/
theorem Database.insertAttempt_fresh {db : Database} {row : AttemptRow}
    (hjob : (db.deliveryJobs.find? row.jobId).isSome)
    (hnumber : row.attemptNumber = db.nextAttemptNumber row.jobId)
    (hid : db.deliveryAttempts.find? row.id = none) :
    ∃ db', db.insertAttempt row = .ok ((), db') := by
  have hsome : (db.deliveryAttempts.insert? row).isSome := by
    by_contra hnone
    have := Table.insert?_eq_none_iff.mp (Option.not_isSome_iff_eq_none.mp hnone)
    simp [hid] at this
  obtain ⟨deliveryAttempts, hinsert⟩ := Option.isSome_iff_exists.mp hsome
  refine ⟨{ db with deliveryAttempts }, ?_⟩
  unfold Database.insertAttempt
  have hthere : ¬(db.deliveryJobs.find? row.jobId).isNone := by
    rw [Option.isNone_iff_eq_none]
    exact Option.isSome_iff_ne_none.mp hjob
  rw [if_neg hthere, hnumber, db.nextAttemptNumber_fresh, hinsert]
  rfl

namespace Conn.Ready

variable {c : Conn}

theorem skip (h : c.Ready) (k : Nat) : (c.skip k).Ready :=
  ⟨h.quiet.skip k, fun n => h.fresh (n + k)⟩

theorem settle {f : JobRow → JobRow} {g} (h : c.Ready) (hj : c.db.deliveryJobs.find? k = some j)
    (hs : j.state = .sending) :
    ∃ c', settle k f g c = (.ok (), c') ∧ c'.Ready ∧ (c'.db.deliveryJobs.find? k).isSome := by
  have hcount : c.db.deliveryJobs.count (fun j => j.id = k ∧ j.state = .sending) ≠ 0 := by
    intro hzero
    have := Table.count_eq_zero_iff.mp hzero j (Table.find?_eq_some_iff.mp hj).1
    simp [Table.find?_key hj, hs] at this
  let updated := c.db.updateJobs (fun j => j.id = k ∧ j.state = .sending) f g
  refine ⟨{ c.skip 1 with db := updated.2 }, Txn.bind_ok_iff.mpr ⟨updated.1, _, h.quiet.execute, ?_⟩,
    ⟨h.quiet.skip 1, fun n => h.fresh (n + 1)⟩, ?_⟩
  · exact (congrFun (if_neg hcount) _).trans rfl
  · change (Table.find? (c.db.deliveryJobs.update _ f g) k).isSome
    rw [Table.find?_update, hj]
    rfl

theorem writeAttempt (h : c.Ready) (hjob : (c.db.deliveryJobs.find? k).isSome) :
    ∃ c', writeAttempt k r t c = (.ok (), c') ∧ c'.Quiet := by
  let row : AttemptRow := {
    id := (c.world 1).uuid, jobId := k, attemptNumber := c.db.nextAttemptNumber k,
    startedAt := t, completedAt := t, outcome := r.outcome, httpStatus := r.httpStatus,
    platformCode := r.platformCode, errorCode := r.errorCode, retryAt := r.retryAt }
  obtain ⟨db', hinsert⟩ : ∃ db', c.db.insertAttempt row = .ok ((), db') :=
    Database.insertAttempt_fresh hjob rfl (h.fresh 1)
  refine ⟨{ c.skip 3 with db := db' }, Txn.bind_ok_iff.mpr ⟨_, c.skip 1, h.quiet.query,
    Txn.bind_ok_iff.mpr ⟨c.world 1, c.skip 2, rfl, ?_⟩⟩, h.quiet.skip 3⟩
  exact statement_ok_iff.mpr ⟨h.quiet 2, db', hinsert, rfl⟩

/-- A settled job followed by its attempt. -/
theorem settled {f : JobRow → JobRow} {g} (h : c.Ready) (hj : c.db.deliveryJobs.find? k = some j)
    (hs : j.state = .sending) : ∃ c', (do
      CcReminder.settle k f g
      CcReminder.writeAttempt k r t) c = (.ok (), c') ∧ c'.Quiet := by
  obtain ⟨c₁, h₁, hready, hsome⟩ := h.settle (f := f) (g := g) hj hs
  obtain ⟨c₂, h₂, hquiet⟩ := hready.writeAttempt (r := r) (t := t) hsome
  exact ⟨c₂, Txn.bind_ok_iff.mpr ⟨(), c₁, h₁, h₂⟩, hquiet⟩

theorem applyRetry (h : c.Ready) (hj : c.db.deliveryJobs.find? k = some j)
    (hs : j.state = .sending) :
    ∃ outcome c', applyRetry k now error c = (.ok outcome, c') := by
  have hrow : (c.db.deliveryJobs.find? k).filter (·.state = .sending) = some j := by
    rw [hj, Option.filter_some, if_pos (decide_eq_true hs)]
  have hready := h.skip 2
  have hquery : query (fun db => (db.deliveryJobs.find? k).filter (·.state = .sending)) c =
      (.ok (some j), c.skip 1) := hrow ▸ h.quiet.query
  suffices hrest : ∃ outcome c', _ from
    let ⟨outcome, c', hrun⟩ := hrest
    ⟨outcome, c', Txn.bind_ok_iff.mpr ⟨some j, c.skip 1, hquery,
      Txn.bind_ok_iff.mpr ⟨c.world 1, c.skip 2, rfl, hrun⟩⟩⟩
  dsimp only
  cases hd : RetryPolicy.classify { jitter := (c.world 1).jitter }
      { attempts := UInt8.ofNat j.attempts, expiresAt := j.expiresAt, classifiedAt := now } error with
  | retryAt t =>
    obtain ⟨c₁, h₁, hready₁, hsome⟩ := hready.settle (f := (·.toRetryWait t error.code))
      (g := fun _ => rfl) hj hs
    obtain ⟨c₂, h₂, hquiet⟩ := hready₁.writeAttempt (r := .ofError error (some t)) (t := now)
      hsome
    have h₃ := (hquiet.skip 1).execute (f := fun db => db.updateChannelOf k
      (fun c => { c with nextAllowedAt := some (max t ((c₂.world 0).utcNow + Duration.seconds 1)),
                         updatedAt := max t ((c₂.world 0).utcNow + Duration.seconds 1) }) fun _ => rfl)
    exact ⟨_, _, Txn.bind_ok_iff.mpr ⟨(), c₁, h₁, Txn.bind_ok_iff.mpr ⟨(), c₂, h₂,
      Txn.bind_ok_iff.mpr ⟨(), _, Txn.bind_ok_iff.mpr ⟨_, _, rfl, h₃⟩, rfl⟩⟩⟩⟩
  | pauseChannel reason => exact absurd hd RetryPolicy.classify_ne_pauseChannel
  | fail =>
    obtain ⟨c₁, h₁, hquiet⟩ := hready.settled (f := (·.toFailed now error.code))
      (g := fun _ => rfl) (r := .ofError error none) (t := now) hj hs
    by_cases hkind : error.kind = .authentication
    · simp only [if_pos hkind]
      exact ⟨_, _, Txn.bind_ok_iff.mpr ⟨(), c₁, h₁, Txn.bind_ok_iff.mpr ⟨_, _, hquiet.execute, rfl⟩⟩⟩
    · simp only [if_neg hkind]
      exact ⟨_, _, Txn.bind_ok_iff.mpr ⟨(), c₁, h₁, rfl⟩⟩
  | expire =>
    obtain ⟨c₁, h₁, hready₁, hsome⟩ := hready.settle (f := (·.toExpired now error.code))
      (g := fun _ => rfl) hj hs
    obtain ⟨c₂, h₂, hquiet⟩ := hready₁.writeAttempt (r := .ofError error none) (t := now) hsome
    exact ⟨_, _, Txn.bind_ok_iff.mpr ⟨(), c₁, h₁, Txn.bind_ok_iff.mpr ⟨(), c₂, h₂, rfl⟩⟩⟩

end Conn.Ready

/-- The outcome of a job can be recorded when the job is in `sending`. -/
theorem Database.canRecord {db : Database} (h : db.stateOf k = some .sending) : db.CanRecord k := by
  obtain ⟨j, hj, hs⟩ := Option.map_eq_some_iff.mp h
  intro c now hdb hready
  subst hdb
  refine ⟨fun receipt => ?_, fun error => ?_, fun error => ?_⟩
  · obtain ⟨c₁, h₁, -⟩ := (hready.skip 2).settled (f := (·.toSucceeded now)) (g := fun _ => rfl)
      (r := { outcome := "succeeded", httpStatus := some receipt.httpStatus,
                   platformCode := receipt.platformCode, errorCode := none, retryAt := none })
      (t := now) hj hs
    exact hready.quiet.immediate .completeOne h₁
  · obtain ⟨outcome, c₁, h₁⟩ := (hready.skip 2).applyRetry hj hs
    exact ⟨outcome, hready.quiet.immediate .applyRetry h₁⟩
  · obtain ⟨c₁, h₁, hquiet⟩ := (hready.skip 2).settled (f := (·.toFailed now error.code))
      (g := fun _ => rfl) (r := .ofError error none) (t := now) hj hs
    obtain ⟨c₂, h₂⟩ := hquiet.pause k error now
    exact hready.quiet.immediate .failOneAndPause (Txn.bind_ok_iff.mpr ⟨(), c₁, h₁, h₂⟩)

/-- No outcome can be recorded for a job that is not in `sending`. -/
theorem Database.not_canRecord {db : Database} (h : db.stateOf k ≠ some .sending) (c : Conn)
    (hdb : c.db = db) (hready : c.Ready) : ¬db.CanRecord k := by
  intro hcan
  obtain ⟨c', hrun⟩ := (hcan c 0 hdb hready).1 { httpStatus := 200, platformCode := none, sentAt := 0 }
  obtain ⟨j, _, hs, -, hbecomes⟩ := (ensures_immediate ensures_completeOne hrun).job
  rw [← hdb, Database.stateOf, hbecomes.before, Option.map_some, hs] at h
  exact h rfl

end CcReminder
