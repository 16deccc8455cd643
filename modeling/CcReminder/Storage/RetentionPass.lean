import CcReminder.Lib.Pruning
import CcReminder.Storage.Queue.Run
import CcReminder.Storage.Retention

/-!
# What a retention pass leaves

The loop over the attempts may end with old ones left, as it limits the rows that it looks at and not those
that it deletes: they go with their jobs. The other loops end when nothing old is left. Together they leave
just what is kept, whatever the number of rows and their order.
-/

set_option autoImplicit true

namespace CcReminder

open Lib

namespace Database

/-- The foreign keys of attempts and of jobs. -/
structure Referential (db : Database) : Prop where
  attempts : ∀ a ∈ db.deliveryAttempts.rows, ∃ j ∈ db.deliveryJobs.rows, j.id = a.jobId
  jobs : ∀ j ∈ db.deliveryJobs.rows, ∃ e ∈ db.events.rows, e.envelope.id = j.eventId

/-! ## Conditions -/

def isOldJob (cutoff : DateTime) (j : JobRow) : Bool := j.createdAt < cutoff

/-- No job that is kept has the attempt. -/
def isOldAttempt (db : Database) (cutoff : DateTime) (a : AttemptRow) : Bool :=
  !db.deliveryJobs.rows.any fun j => j.id = a.jobId ∧ ¬isOldJob cutoff j

/-- The event is old, and no job that is kept has it. -/
def isOldEvent (db : Database) (cutoff : DateTime) (e : EventRow) : Bool :=
  e.envelope.occurredAt < cutoff ∧
    !db.deliveryJobs.rows.any fun j => j.eventId = e.envelope.id ∧ ¬isOldJob cutoff j

def isOldIngress (cutoff : DateTime) (r : IngressRow) : Bool := r.state ≠ .pending ∧ r.receivedAt < cutoff

/-- What any part of a pass does: only what is old is gone, and nothing has lost its parent. -/
structure Pruned (cutoff : DateTime) (db db' : Database) : Prop where
  jobs : Table.Drops (isOldJob cutoff) db.deliveryJobs db'.deliveryJobs
  attempts : Table.Drops (db.isOldAttempt cutoff) db.deliveryAttempts db'.deliveryAttempts
  events : Table.Drops (db.isOldEvent cutoff) db.events db'.events
  ingress : Table.Drops (isOldIngress cutoff) db.ingressEvents db'.ingressEvents
  referential : db.Referential → db'.Referential

namespace Pruned

variable {db db' db'' : Database} {cutoff : DateTime}

theorem refl (cutoff : DateTime) (db : Database) : db.Pruned cutoff db where
  jobs := .refl _ _
  attempts := .refl _ _
  events := .refl _ _
  ingress := .refl _ _
  referential := id

/-- A job that is kept stays, so what it has is not old later either. -/
theorem any_job (h : db.Pruned cutoff db') {p : JobRow → Prop} [DecidablePred p]
    (hany : db.deliveryJobs.rows.any fun j => p j ∧ ¬isOldJob cutoff j) :
    db'.deliveryJobs.rows.any fun j => p j ∧ ¬isOldJob cutoff j := by
  simp only [List.any_eq_true, decide_eq_true_eq] at hany ⊢
  obtain ⟨j, hj, hp, hkept⟩ := hany
  exact ⟨j, h.jobs.keeps hj (by simpa using hkept), hp, hkept⟩

theorem trans (h : db.Pruned cutoff db') (h' : db'.Pruned cutoff db'') : db.Pruned cutoff db'' where
  jobs := h.jobs.trans h'.jobs fun _ _ hp => hp
  attempts := by
    refine h.attempts.trans h'.attempts fun a _ hkept => ?_
    simp only [isOldAttempt, Bool.not_eq_false'] at hkept ⊢
    exact h.any_job hkept
  events := by
    refine h.events.trans h'.events fun e _ hkept => ?_
    simp only [isOldEvent, decide_eq_false_iff_not, not_and, Bool.not_eq_true'] at hkept ⊢
    intro hold
    rw [Bool.not_eq_false]
    exact h.any_job (by simpa using hkept hold)
  ingress := h.ingress.trans h'.ingress fun _ _ hp => hp
  referential := h'.referential ∘ h.referential

end Pruned

/-! ## Deletions -/

variable (db : Database) (cutoff : DateTime)

theorem deleteOldAttempts_pruned : db.Pruned cutoff (db.deleteOldAttempts cutoff).2 where
  jobs := .refl _ _
  attempts := by
    refine Table.Drops.delete fun a _ hold => ?_
    simp only [Bool.and_eq_true, decide_eq_true_eq] at hold
    obtain ⟨j, hfind, hj⟩ := (Option.any_eq_true _ _).mp hold.2
    obtain ⟨hmem, hid⟩ := Table.find?_eq_some_iff.mp hfind
    simp only [isOldAttempt, Bool.not_eq_true', List.any_eq_false, decide_eq_true_eq, not_and, not_not]
    intro i hi hkey
    rw [Table.key_inj hi hmem (hkey.trans hid.symm)]
    exact hj
  events := .refl _ _
  ingress := .refl _ _
  referential h := ⟨fun a ha => h.attempts a (List.mem_of_mem_filter ha), h.jobs⟩

theorem deleteOldJobs_pruned : db.Pruned cutoff (db.deleteOldJobs cutoff).2 where
  jobs := .deleteFirst _ _ _
  attempts := by
    refine Table.Drops.delete fun a _ horphan => ?_
    rw [Option.isNone_iff_eq_none, Table.find?_eq_none_iff] at horphan
    simp only [isOldAttempt, Bool.not_eq_true', List.any_eq_false, decide_eq_true_eq, not_and, not_not]
    intro j hj hkey
    by_contra hkept
    have hmem := (Table.Drops.deleteFirst DELETE_BATCH (isOldJob cutoff) db.deliveryJobs).keeps hj
      (by simpa using hkept)
    exact horphan j hmem hkey
  events := .refl _ _
  ingress := .refl _ _
  referential h := by
    have hjobs := Table.Drops.deleteFirst DELETE_BATCH (isOldJob cutoff) db.deliveryJobs
    refine ⟨fun a ha => ?_, fun j hj => h.jobs j (hjobs.mem hj)⟩
    obtain ⟨-, hparent⟩ := List.mem_filter.mp ha
    simp only [Bool.not_eq_true', Option.isNone_eq_false_iff, Option.isSome_iff_exists] at hparent
    obtain ⟨j, hfind⟩ := hparent
    exact ⟨j, Table.find?_eq_some_iff.mp hfind⟩

theorem deleteOldEvents_pruned : db.Pruned cutoff (db.deleteOldEvents cutoff).2 where
  jobs := .refl _ _
  attempts := .refl _ _
  events := by
    refine (Table.Drops.deleteFirst DELETE_BATCH _ db.events).mono fun e _ hold => ?_
    simp only [Bool.and_eq_true, Bool.not_eq_true', isParent, List.any_eq_false, decide_eq_true_eq] at hold
    simp only [isOldEvent, decide_eq_true_eq, Bool.not_eq_true', List.any_eq_false, not_and]
    exact ⟨hold.2, fun j hj hid => absurd hid (hold.1 j hj)⟩
  ingress := .refl _ _
  referential h := by
    refine ⟨h.attempts, fun j hj => ?_⟩
    obtain ⟨e, he, hid⟩ := h.jobs j hj
    refine ⟨e, (Table.Drops.deleteFirst DELETE_BATCH _ db.events).keeps he ?_, hid⟩
    have hparent : db.isParent e = true := List.any_eq_true.mpr ⟨j, hj, decide_eq_true hid.symm⟩
    rw [hparent]
    rfl

theorem deleteOldIngress_pruned : db.Pruned cutoff (db.deleteOldIngress cutoff).2 where
  jobs := .refl _ _
  attempts := .refl _ _
  events := .refl _ _
  ingress := .deleteFirst _ _ _
  referential h := ⟨h.attempts, h.jobs⟩

/-- Nothing old is left: no job, no event without a job, and nothing received but what waits. -/
structure Clean (cutoff : DateTime) (db : Database) : Prop where
  jobs : ∀ j ∈ db.deliveryJobs.rows, cutoff ≤ j.createdAt
  events : ∀ e ∈ db.events.rows, db.isParent e = false → cutoff ≤ e.envelope.occurredAt
  ingress : ∀ r ∈ db.ingressEvents.rows, r.state ≠ .pending → cutoff ≤ r.receivedAt

namespace Clean

variable {db : Database} {cutoff : DateTime} (h : db.Clean cutoff)

include h

theorem mono {cutoff' : DateTime} (hcutoff : cutoff' ≤ cutoff) : db.Clean cutoff' where
  jobs j hj := hcutoff.trans (h.jobs j hj)
  events e he hparent := hcutoff.trans (h.events e he hparent)
  ingress r hr hstate := hcutoff.trans (h.ingress r hr hstate)

theorem deleteOldAttempts : db.deleteOldAttempts cutoff = (0, db) := by
  have hnone : ∀ a ∈ db.deliveryAttempts.rows,
      (decide (a.id ∈ (db.deliveryAttempts.rows.take DELETE_BATCH).map (·.id)) &&
        (db.deliveryJobs.find? a.jobId).any fun j => decide (j.createdAt < cutoff)) = false := by
    intro a _
    cases hfind : db.deliveryJobs.find? a.jobId with
    | none => exact Bool.and_false _
    | some j =>
      have hkept := h.jobs j (Table.find?_eq_some_iff.mp hfind).1
      rw [Option.any_some, decide_eq_false (Int.not_lt.mpr hkept), Bool.and_false]
  rw [Database.deleteOldAttempts, Table.count_eq_zero_iff.mpr hnone, Table.delete_of_forall_not hnone]

theorem deleteOldJobs (hrefs : db.Referential) : db.deleteOldJobs cutoff = (0, db) := by
  have hnone : ∀ j ∈ db.deliveryJobs.rows, decide (j.createdAt < cutoff) = false :=
    fun j hj => decide_eq_false (Int.not_lt.mpr (h.jobs j hj))
  have horphans : ∀ a ∈ db.deliveryAttempts.rows, (db.deliveryJobs.find? a.jobId).isNone = false := by
    intro a ha
    obtain ⟨j, hj, hid⟩ := hrefs.attempts a ha
    rw [Table.find?_eq_some_iff.mpr ⟨hj, hid⟩]
    rfl
  rw [Database.deleteOldJobs, Table.deleteFirst_of_forall_not hnone]
  simp only [cascadeJobs, Table.delete_of_forall_not horphans]

theorem deleteOldEvents : db.deleteOldEvents cutoff = (0, db) := by
  have hnone : ∀ e ∈ db.events.rows,
      (!db.isParent e && decide (e.envelope.occurredAt < cutoff)) = false := by
    intro e he
    cases hparent : db.isParent e with
    | true => rfl
    | false => rw [decide_eq_false (Int.not_lt.mpr (h.events e he hparent)), Bool.and_false]
  rw [Database.deleteOldEvents, Table.deleteFirst_of_forall_not hnone]

theorem deleteOldIngress : db.deleteOldIngress cutoff = (0, db) := by
  have hnone : ∀ r ∈ db.ingressEvents.rows,
      decide (r.state ≠ .pending ∧ r.receivedAt < cutoff) = false := by
    intro r hr
    rw [decide_eq_false_iff_not, not_and, Int.not_lt]
    exact h.ingress r hr
  rw [Database.deleteOldIngress, Table.deleteFirst_of_forall_not hnone]

end Clean

end Database

/-! ## Loops -/

/-- A loop ends with a round below the limit: each other round makes the table shorter. -/
theorem ensures_inBatches_last {size : Database → Nat} {delete : Database → Nat × Database}
    {Q : Database → Prop} (hprogress : ∀ db, DELETE_BATCH ≤ (delete db).1 → size (delete db).2 < size db)
    (hlast : ∀ db, (delete db).1 < DELETE_BATCH → Q (delete db).2) :
    Ensures (inBatches e size delete) fun _ _ db' => Q db' := by
  have hloop : ∀ fuel (c : Conn), size c.db < fuel → ∀ {n c'},
      untilPartial e delete fuel c = (.ok n, c') → Q c'.db := by
    intro fuel
    induction fuel with
    | zero => exact fun c hfuel => absurd hfuel (Nat.not_lt_zero _)
    | succ fuel ih =>
      intro c hfuel n c' hrun
      obtain ⟨deleted, c₁, hround, hrun⟩ := Txn.bind_ok_iff.mp hrun
      have hresult := Except.ok.inj (ensures_statement hround)
      obtain ⟨hcount, hdb⟩ := Prod.mk.inj hresult
      split at hrun
      · rename_i hlt
        cases hrun
        rw [← hdb]
        exact hlast c.db (hcount ▸ hlt)
      · rename_i hle
        obtain ⟨more, c₂, hrest, hrun⟩ := Txn.bind_ok_iff.mp hrun
        cases hrun
        have hshorter := hprogress c.db (hcount ▸ Nat.le_of_not_lt hle)
        rw [hdb] at hshorter
        exact ih c₁ (by omega) hrest
  intro c n c' hrun
  exact hloop _ c (Nat.lt_succ_self _) hrun

/-- A loop with nothing to delete changes nothing. -/
theorem ensures_inBatches_idle {delete : Database → Nat × Database} :
    Ensures (inBatches e size delete) fun db n db' => delete db = (0, db) → n = 0 ∧ db' = db := by
  intro c n c' hrun hidle
  obtain ⟨deleted, c₁, hround, hrun⟩ := Txn.bind_ok_iff.mp hrun
  have hresult := Except.ok.inj (ensures_statement hround)
  rw [hidle] at hresult
  obtain ⟨rfl, hdb⟩ := Prod.mk.inj hresult
  rw [if_pos (show (0 : Nat) < DELETE_BATCH by decide)] at hrun
  cases hrun
  exact ⟨rfl, hdb.symm⟩

/-! ## The pass -/

open Database

theorem ensures_deleteExpired_pruned : Ensures (deleteExpired cutoff) fun db _ db' => db.Pruned cutoff db' :=
  ensures_deleteExpired_of (.refl cutoff) (fun _ _ _ => .trans) (deleteOldAttempts_pruned · cutoff)
    (deleteOldJobs_pruned · cutoff) (deleteOldEvents_pruned · cutoff) (deleteOldIngress_pruned · cutoff)

theorem ensures_deleteOldJobs_last : Ensures
    (inBatches e (·.deliveryJobs.rows.length) (·.deleteOldJobs cutoff)) fun _ _ db' =>
      ∀ j ∈ db'.deliveryJobs.rows, cutoff ≤ j.createdAt := by
  refine ensures_inBatches_last (fun db hround => ?_) fun db hround j hj => ?_
  · exact Table.deleteFirst_progress (by decide) hround
  · exact Int.not_lt.mp (of_decide_eq_false (Table.deleteFirst_last hround j hj))

theorem ensures_deleteOldEvents_last : Ensures
    (inBatches e (·.events.rows.length) (·.deleteOldEvents cutoff)) fun db _ db' =>
      db'.deliveryJobs = db.deliveryJobs ∧
        ∀ e ∈ db'.events.rows, db'.isParent e = false → cutoff ≤ e.envelope.occurredAt := by
  intro c n c' hrun
  refine ⟨ensures_inBatches (R := fun db db' => db'.deliveryJobs = db.deliveryJobs) (fun _ => rfl)
    (fun _ _ _ h h' => h'.trans h) (fun _ => rfl) hrun, ?_⟩
  refine ensures_inBatches_last (Q := fun db' => ∀ e ∈ db'.events.rows, db'.isParent e = false →
    cutoff ≤ e.envelope.occurredAt) (fun db hround => ?_) (fun db hround e he hparent => ?_) hrun
  · exact Table.deleteFirst_progress (by decide) hround
  · have hkept := Table.deleteFirst_last hround e he
    change (!db.isParent e && _) = false at hkept
    change db.isParent e = false at hparent
    rw [hparent, Bool.not_false, Bool.true_and, decide_eq_false_iff_not] at hkept
    exact Int.not_lt.mp hkept

theorem ensures_deleteOldIngress_last : Ensures
    (inBatches e (·.ingressEvents.rows.length) (·.deleteOldIngress cutoff)) fun db _ db' =>
      (db'.deliveryJobs = db.deliveryJobs ∧ db'.events = db.events) ∧
        ∀ r ∈ db'.ingressEvents.rows, r.state ≠ .pending → cutoff ≤ r.receivedAt := by
  intro c n c' hrun
  refine ⟨ensures_inBatches (R := fun db db' => db'.deliveryJobs = db.deliveryJobs ∧ db'.events = db.events)
    (fun _ => ⟨rfl, rfl⟩) (fun _ _ _ h h' => ⟨h'.1.trans h.1, h'.2.trans h.2⟩) (fun _ => ⟨rfl, rfl⟩) hrun, ?_⟩
  refine ensures_inBatches_last (Q := fun db' => ∀ r ∈ db'.ingressEvents.rows, r.state ≠ .pending →
    cutoff ≤ r.receivedAt) (fun db hround => ?_) (fun db hround r hr hstate => ?_) hrun
  · exact Table.deleteFirst_progress (by decide) hround
  · have hkept := of_decide_eq_false (Table.deleteFirst_last hround r hr)
    exact Int.not_lt.mp fun hlt => hkept ⟨hstate, hlt⟩

theorem ensures_deleteExpired_clean : Ensures (deleteExpired cutoff) fun _ _ db' => db'.Clean cutoff := by
  refine ensures_transaction ?_
  refine Ensures.bind (P := fun _ _ _ => True) (Q := fun _ _ _ db' => db'.Clean cutoff) (fun _ _ _ _ => trivial)
    (fun _ => ?_) fun _ _ _ _ _ _ h => h
  refine Ensures.bind ensures_deleteOldJobs_last (Q := fun _ db _ db' =>
    (∀ j ∈ db.deliveryJobs.rows, cutoff ≤ j.createdAt) → db'.Clean cutoff) (fun _ => ?_)
    fun _ _ _ _ _ h h' => h' h
  refine Ensures.bind ensures_deleteOldEvents_last (Q := fun _ db _ db' =>
    (∀ j ∈ db.deliveryJobs.rows, cutoff ≤ j.createdAt) →
    (∀ e ∈ db.events.rows, db.isParent e = false → cutoff ≤ e.envelope.occurredAt) → db'.Clean cutoff)
    (fun _ => ?_) fun _ _ _ _ _ h h' hjobs => h' (h.1 ▸ hjobs) h.2
  refine Ensures.bind ensures_deleteOldIngress_last (Q := fun _ db _ db' => db' = db)
    (fun _ => Ensures.ret fun _ => rfl) fun db _ db' _ db'' h h' hjobs hevents => ?_
  subst h'
  refine ⟨h.1.1 ▸ hjobs, fun e he hparent => ?_, h.2⟩
  rw [h.1.2] at he
  rw [isParent, h.1.1] at hparent
  exact hevents e he hparent

/-- A pass over tables with nothing old deletes nothing. -/
theorem ensures_deleteExpired_idle : Ensures (deleteExpired cutoff) fun db stats db' =>
    db.Clean cutoff → db.Referential → db' = db ∧ stats = {} := by
  refine ensures_transaction ?_
  refine ensures_inBatches_idle.bind (Q := fun attempts db stats db' => db.Clean cutoff → db.Referential →
    db' = db ∧ stats = { deletedAttempts := attempts }) (fun attempts => ?_) fun db n db' stats db'' h h' hclean hrefs => ?_
  · refine ensures_inBatches_idle.bind (Q := fun jobs db stats db' => db.Clean cutoff →
      db' = db ∧ stats = { deletedAttempts := attempts, deletedJobs := jobs }) (fun jobs => ?_)
      fun db n db' stats db'' h h' hclean hrefs => ?_
    · refine ensures_inBatches_idle.bind (Q := fun events db stats db' => db.Clean cutoff →
        db' = db ∧ stats = { deletedAttempts := attempts, deletedJobs := jobs, deletedEvents := events })
        (fun events => ?_)
        fun db n db' stats db'' h h' hclean => ?_
      · refine ensures_inBatches_idle.bind (Q := fun ingress db stats db' => db' = db ∧ stats =
          { deletedAttempts := attempts, deletedJobs := jobs, deletedEvents := events, deletedIngress := ingress })
          (fun _ => Ensures.ret fun _ => ⟨rfl, rfl⟩) fun db n db' stats db'' h h' hclean => ?_
        obtain ⟨rfl, rfl⟩ := h hclean.deleteOldIngress
        exact h'
      · obtain ⟨rfl, rfl⟩ := h hclean.deleteOldEvents
        exact h' hclean
    · obtain ⟨rfl, rfl⟩ := h (hclean.deleteOldJobs hrefs)
      exact h' hclean
  · obtain ⟨rfl, rfl⟩ := h hclean.deleteOldAttempts
    exact h' hclean hrefs

/-! ## Runs -/

/-- A run deletes by the retention that it reads. -/
theorem runOnce_deletes {c : Conn} (hdays : c.retentionDays = some days)
    (hrun : runOnce now c = (.ok stats, c')) :
    ∃ c₁ c₂ deleted, c₁.db = c.db ∧ deleteExpired (now - Duration.days days) c₁ = (.ok deleted, c₂) ∧
      c'.db = c₂.db ∧ stats = { deleted with vacuumed := stats.vacuumed } := by
  obtain ⟨⟨⟩, c₁, hconnect, hrun⟩ := Txn.bind_ok_iff.mp hrun
  obtain ⟨days', c₂, hsettings, hrun⟩ := Txn.bind_ok_iff.mp hrun
  have hread : (connect >>= fun _ => retentionSettings) c = (.ok days', c₂) :=
    Txn.bind_ok_iff.mpr ⟨_, c₁, hconnect, hsettings⟩
  rw [Conn.retentionDays, hread] at hdays
  cases hdays
  obtain ⟨deleted, c₃, hdelete, hrun⟩ := Txn.bind_ok_iff.mp hrun
  obtain ⟨vacuumed, c₄, hvacuum, hrun⟩ := Txn.bind_ok_iff.mp hrun
  cases hrun
  have hdb : c₂.db = c.db := (ReadsOnly.retentionSettings.ok hsettings).trans (ensures_connect hconnect)
  exact ⟨c₂, c₃, deleted, hdb, hdelete, ReadsOnly.shouldVacuum.ok hvacuum, rfl⟩

/-- What is left is what is kept: nothing old, everything else, each row with its parents and each job
with its attempts. -/
structure Database.Retained (cutoff : DateTime) (db db' : Database) : Prop where
  noOldJob : ∀ j ∈ db'.deliveryJobs.rows, cutoff ≤ j.createdAt
  noOldEvent : ∀ e ∈ db'.events.rows, db'.isParent e = false → cutoff ≤ e.envelope.occurredAt
  jobs : ∀ j ∈ db.deliveryJobs.rows, cutoff ≤ j.createdAt → j ∈ db'.deliveryJobs.rows ∧
    (∀ e ∈ db.events.rows, e.envelope.id = j.eventId → e ∈ db'.events.rows) ∧
    ∀ a ∈ db.deliveryAttempts.rows, a.jobId = j.id → a ∈ db'.deliveryAttempts.rows
  events : ∀ e ∈ db.events.rows, cutoff ≤ e.envelope.occurredAt → e ∈ db'.events.rows
  noNewRow : db'.deliveryJobs.rows ⊆ db.deliveryJobs.rows ∧ db'.events.rows ⊆ db.events.rows ∧
    db'.deliveryAttempts.rows ⊆ db.deliveryAttempts.rows
  referential : db'.Referential

theorem Database.Pruned.retained {db db' : Database} (h : db.Pruned cutoff db') (hclean : db'.Clean cutoff)
    (hrefs : db.Referential) : db.Retained cutoff db' where
  noOldJob := hclean.jobs
  noOldEvent := hclean.events
  jobs j hj hkept := by
    have hyoung : isOldJob cutoff j = false := decide_eq_false (Int.not_lt.mpr hkept)
    refine ⟨h.jobs.keeps hj hyoung, fun e he hid => h.events.keeps he ?_, fun a ha hid => h.attempts.keeps ha ?_⟩
    · rw [isOldEvent, decide_eq_false_iff_not, not_and]
      refine fun _ hnone => absurd hnone ?_
      simp only [Bool.not_eq_true', Bool.not_eq_false, List.any_eq_true, decide_eq_true_eq]
      exact ⟨j, hj, hid.symm, by simp [hyoung]⟩
    · simp only [isOldAttempt, Bool.not_eq_false', List.any_eq_true, decide_eq_true_eq]
      exact ⟨j, hj, hid.symm, by simp [hyoung]⟩
  events e he hkept := by
    refine h.events.keeps he ?_
    rw [isOldEvent, decide_eq_false_iff_not, not_and]
    exact fun hold => absurd hold (Int.not_lt.mpr hkept)
  noNewRow := ⟨fun _ => h.jobs.mem, fun _ => h.events.mem, fun _ => h.attempts.mem⟩
  referential := h.referential hrefs

/-- The setting, or 30 days when it cannot be read. -/
theorem Conn.retentionDays_eq {c : Conn} (h : c.retentionDays = some days) :
    days = min (max c.db.settings.eventRetentionDays.toNat 1) 365 ∨ days = 30 := by
  obtain ⟨_, c₁, hconnect, hsettings⟩ := Txn.bind_ok_iff.mp (ok_run h)
  obtain ⟨settings, c₂, hread, hdays⟩ := Txn.bind_ok_iff.mp hsettings
  cases hdays
  cases settings with
  | none => exact .inr rfl
  | some settings =>
    obtain ⟨hvalue, -⟩ := ensures_read (attempt_some hread)
    rw [hvalue, ensures_connect hconnect]
    exact .inl rfl

/-- **Exact retention.** Whatever the number of rows and their order, a pass that ends well leaves what is
kept and nothing else, and a second one, with no shorter retention, deletes nothing. -/
theorem runOnce_exact {c c' : Conn} (hrefs : c.db.Referential) (hrun : runOnce now c = (.ok stats, c')) :
    ∃ days, c.retentionDays = some days ∧
      (days = min (max c.db.settings.eventRetentionDays.toNat 1) 365 ∨ days = 30) ∧
      c.db.Retained (now - Duration.days days) c'.db ∧
      ∀ c₁ c₂ days₁ stats₁, c₁.db = c'.db → c₁.retentionDays = some days₁ → days ≤ days₁ →
        runOnce now c₁ = (.ok stats₁, c₂) → c₂.db = c'.db ∧ stats₁ = { vacuumed := stats₁.vacuumed } := by
  obtain ⟨days, hdays⟩ : ∃ days, c.retentionDays = some days := by
    obtain ⟨⟨⟩, c₁, hconnect, hrest⟩ := Txn.bind_ok_iff.mp hrun
    obtain ⟨days, c₂, hsettings, -⟩ := Txn.bind_ok_iff.mp hrest
    refine ⟨days, ?_⟩
    rw [Conn.retentionDays, show (connect >>= fun _ => retentionSettings) c = (.ok days, c₂) from
      Txn.bind_ok_iff.mpr ⟨_, c₁, hconnect, hsettings⟩]
    rfl
  obtain ⟨c₀, c₀', deleted, hdb, hdelete, hdb', -⟩ := runOnce_deletes hdays hrun
  have hpruned : c.db.Pruned (now - Duration.days days) c'.db := by
    rw [hdb', ← hdb]
    exact ensures_deleteExpired_pruned hdelete
  have hclean : c'.db.Clean (now - Duration.days days) := by
    rw [hdb']
    exact ensures_deleteExpired_clean hdelete
  refine ⟨days, hdays, Conn.retentionDays_eq hdays, hpruned.retained hclean hrefs, ?_⟩
  intro c₁ c₂ days₁ stats₁ hsame hdays₁ hlonger hrun₁
  obtain ⟨c₃, c₃', deleted₁, hdb₁, hdelete₁, hdb₂, hstats⟩ := runOnce_deletes hdays₁ hrun₁
  have hbefore : now - Duration.days days₁ ≤ now - Duration.days days := by
    simp only [Duration.days, Duration.seconds]
    dsimp only [DateTime, Duration]
    omega
  have hstart : c₃.db = c'.db := hdb₁.trans hsame
  obtain ⟨hidle, hzero⟩ := ensures_deleteExpired_idle hdelete₁ (hstart ▸ hclean.mono hbefore)
    (hstart ▸ hpruned.referential hrefs)
  exact ⟨hdb₂.trans (hidle.trans hstart), by rw [hstats, hzero]⟩

/-! ## Two jobs -/

namespace RetentionPass.Sample

open CcReminder.Sample

def attempt : AttemptRow where
  id := 1
  jobId := 1
  attemptNumber := 1
  startedAt := 0
  completedAt := 0
  outcome := "succeeded"
  httpStatus := none
  platformCode := none
  errorCode := none
  retryAt := none

/-- One job of the first day, with an attempt, and one of the fortieth. -/
def start : Conn where
  db := {
    events := CcReminder.Sample.start.db.events
    deliveryJobs := ⟨[(job 1 none).toRow "1" 0, (job 2 none).toRow "2" (Duration.days 40)], by decide⟩
    deliveryAttempts := ⟨[attempt], by decide⟩ }
  world _ := {}

theorem runOnce_keeps_second : (runOnce (Duration.days 45) start).2.db.deliveryJobs.rows.all
    (Duration.days 15 ≤ ·.createdAt) = true := by
  have hrefs : start.db.Referential := ⟨by decide, by decide⟩
  obtain ⟨stats, c', hrun⟩ := exists_ok (x := runOnce (Duration.days 45)) (c := start) (by decide +kernel)
  obtain ⟨days, hdays, -, hretained, -⟩ := runOnce_exact hrefs hrun
  have hthirty : start.retentionDays = some 30 := rfl
  rw [hthirty] at hdays
  cases hdays
  rw [hrun, List.all_eq_true]
  exact fun j hj => decide_eq_true (hretained.noOldJob j hj)

end RetentionPass.Sample

end CcReminder
