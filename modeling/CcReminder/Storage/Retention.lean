import CcReminder.Storage.Config

/-!
# Retention

`storage/retention.rs`: one pass deletes history past a cutoff, in batches and in one
transaction; `clear_history` deletes all of it. Log files are left out, and so is the compaction
of the database file itself.
-/

set_option autoImplicit true

namespace CcReminder

open Lib

def DELETE_BATCH : Nat := 500

def retentionError (message : String) : AppError := storageError "storage.retention_failed" message

def clearError (message : String) : AppError := storageError "storage.clear_failed" message

structure RetentionStats where
  deletedEvents : Nat := 0
  deletedJobs : Nat := 0
  deletedAttempts : Nat := 0
  deletedIngress : Nat := 0
  vacuumed : Bool := false
  deriving DecidableEq

namespace Database

def isParent (db : Database) (event : EventRow) : Bool :=
  db.deliveryJobs.rows.any (·.eventId = event.envelope.id)

/-- The attempts of old jobs among the first attempts of the table. -/
def deleteOldAttempts (db : Database) (cutoff : DateTime) : Nat × Database :=
  let first := (db.deliveryAttempts.rows.take DELETE_BATCH).map (·.id)
  let isOld := fun a : AttemptRow => decide (a.id ∈ first) &&
    (db.deliveryJobs.find? a.jobId).any fun j => j.createdAt < cutoff
  (db.deliveryAttempts.count isOld,
    { db with deliveryAttempts := db.deliveryAttempts.delete isOld })

def deleteOldJobs (db : Database) (cutoff : DateTime) : Nat × Database :=
  let (n, deliveryJobs) := db.deliveryJobs.deleteFirst DELETE_BATCH (·.createdAt < cutoff)
  (n, { db with deliveryJobs }.cascadeJobs)

def deleteOldEvents (db : Database) (cutoff : DateTime) : Nat × Database :=
  let (n, events) := db.events.deleteFirst DELETE_BATCH fun e =>
    !db.isParent e && e.envelope.occurredAt < cutoff
  (n, { db with events })

def deleteOldIngress (db : Database) (cutoff : DateTime) : Nat × Database :=
  let (n, ingressEvents) := db.ingressEvents.deleteFirst DELETE_BATCH fun r =>
    r.state ≠ .pending ∧ r.receivedAt < cutoff
  (n, { db with ingressEvents })

def isTerminal (j : JobRow) : Bool :=
  j.state = .succeeded ∨ j.state = .failed ∨ j.state = .expired

end Database

/-- Repeat a statement until it changes less than a batch. -/
def untilPartial (e : AppError) (delete : Database → Nat × Database) : Nat → Tx Nat
  | 0 => pure 0
  | fuel + 1 => do
    let deleted ← statement e fun db => .ok (delete db)
    if deleted < DELETE_BATCH then pure deleted
    else do
      let more ← untilPartial e delete fuel
      pure (deleted + more)

/-- A loop over one of the tables: each round but the last deletes some of its rows. -/
def inBatches (e : AppError) (size : Database → Nat) (delete : Database → Nat × Database) : Tx Nat :=
  .step fun c => untilPartial e delete (size c.db + 1) c

/-- The transaction of a pass. -/
def deleteExpired (cutoff : DateTime) : Tx RetentionStats :=
  transaction (retentionError "retention could not start") (retentionError "retention commit failed") do
    let deletedAttempts ← inBatches (retentionError "attempt deletion failed")
      (·.deliveryAttempts.rows.length) (·.deleteOldAttempts cutoff)
    let deletedJobs ← inBatches (retentionError "job deletion failed")
      (·.deliveryJobs.rows.length) (·.deleteOldJobs cutoff)
    let deletedEvents ← inBatches (retentionError "event deletion failed")
      (·.events.rows.length) (·.deleteOldEvents cutoff)
    let deletedIngress ← inBatches (retentionError "ingress deletion failed")
      (·.ingressEvents.rows.length) (·.deleteOldIngress cutoff)
    pure { deletedEvents, deletedJobs, deletedAttempts, deletedIngress }

/-- The days for which events are kept; 30 when the settings cannot be read. -/
def retentionSettings : Tx Nat := do
  let settings ← attempt getSettings
  pure (match settings with
    | some settings => min (max settings.eventRetentionDays.toNat 1) 365
    | none => 30)

/-- More than a fifth of the pages are free and no worker has a lease. -/
def shouldVacuum (now : DateTime) : Tx Bool := do
  let free := (← draw)
  if free.fault then .fail (retentionError "free-page count unavailable")
  else do
    let total := (← draw)
    if total.fault then .fail (retentionError "page count unavailable")
    else if total.pages = 0 ∨ free.freePages * 5 ≤ total.pages then pure false
    else do
      let liveLease ← statement (retentionError "lease check unavailable") fun db =>
        .ok (db.deliveryJobs.count fun j => j.state = .sending ∧ j.leaseExpiresAt.any (· > now), db)
      pure (liveLease = 0)

/-- One retention pass. -/
def runOnce (now : DateTime) : Tx RetentionStats := do
  connect
  let eventDays ← retentionSettings
  let stats ← deleteExpired (now - Duration.days eventDays)
  let vacuumed ← shouldVacuum now
  pure { stats with vacuumed }

/-- Delete the history of everything that is not active, with the number of deleted events. -/
def clearHistory : Tx Nat := do
  connect
  transaction (clearError "clear-history could not start") (clearError "clear-history commit failed") do
    statement (clearError "attempt deletion failed") fun db =>
      .ok ((), { db with deliveryAttempts := db.deliveryAttempts.delete fun a =>
        (db.deliveryJobs.find? a.jobId).any Database.isTerminal })
    statement (clearError "job deletion failed") fun db =>
      .ok ((), { db with deliveryJobs := db.deliveryJobs.delete Database.isTerminal }.cascadeJobs)
    let deleted ← statement (clearError "event deletion failed") fun db =>
      .ok (db.events.count (!db.isParent ·), { db with events := db.events.delete (!db.isParent ·) })
    statement (clearError "ingress deletion failed") fun db =>
      .ok ((), { db with ingressEvents := db.ingressEvents.delete (·.state ≠ .pending) })
    pure deleted

/-! ## Reads -/

theorem ReadsOnly.retentionSettings : ReadsOnly retentionSettings :=
  (attempt read).bind fun _ => pure _

theorem ReadsOnly.shouldVacuum : ReadsOnly (shouldVacuum now) := by
  refine draw.bind fun free => ?_
  dsimp only
  split
  · exact fail _
  refine draw.bind fun total => ?_
  split
  · exact fail _
  split
  · exact pure _
  refine bind (statement fun db n db' h => ?_) fun _ => pure _
  simp only [Except.ok.injEq, Prod.mk.injEq] at h
  exact h.2.symm

/-! ## What stays -/

/-- A loop does what its rounds do, for a relation that composes. -/
theorem ensures_inBatches {R : Database → Database → Prop} (hrefl : ∀ db, R db db)
    (htrans : ∀ db db' db'', R db db' → R db' db'' → R db db'')
    (hdelete : ∀ db, R db (delete db).2) : Ensures (inBatches e size delete) fun db _ db' => R db db' := by
  have hloop : ∀ fuel, Ensures (untilPartial e delete fuel) fun db _ db' => R db db' := by
    intro fuel
    induction fuel with
    | zero => exact Ensures.ret hrefl
    | succ fuel ih =>
      refine Ensures.bind (Q := fun _ db _ db' => R db db') ensures_statement (fun n => ?_)
        fun db n db' m db'' h₁ h₂ => ?_
      · split
        · exact Ensures.ret hrefl
        · exact ih.bind (fun _ => Ensures.ret (R := fun db _ db' => db' = db) fun _ => rfl)
            fun _ _ _ _ _ h₁ h₂ => h₂ ▸ h₁
      · simp only [Except.ok.injEq] at h₁
        have := hdelete db
        rw [h₁] at this
        exact htrans _ _ _ this h₂
  exact fun c n c' h => hloop _ h

/-- A pass does what its deletions do, for a relation that composes. -/
theorem ensures_deleteExpired_of {R : Database → Database → Prop} (hrefl : ∀ db, R db db)
    (htrans : ∀ db db' db'', R db db' → R db' db'' → R db db'')
    (hattempts : ∀ db, R db (db.deleteOldAttempts cutoff).2)
    (hjobs : ∀ db, R db (db.deleteOldJobs cutoff).2)
    (hevents : ∀ db, R db (db.deleteOldEvents cutoff).2)
    (hingress : ∀ db, R db (db.deleteOldIngress cutoff).2) :
    Ensures (deleteExpired cutoff) fun db _ db' => R db db' := by
  have hbind : ∀ {α β} {x : Tx α} {f : α → Tx β}, Ensures x (fun db _ db' => R db db') →
      (∀ a, Ensures (f a) fun db _ db' => R db db') → Ensures (x >>= f) fun db _ db' => R db db' :=
    fun hx hf => hx.bind hf fun _ _ _ _ _ => htrans _ _ _
  refine ensures_transaction ?_
  refine hbind (ensures_inBatches hrefl htrans hattempts) fun _ => ?_
  refine hbind (ensures_inBatches hrefl htrans hjobs) fun _ => ?_
  refine hbind (ensures_inBatches hrefl htrans hevents) fun _ => ?_
  exact hbind (ensures_inBatches hrefl htrans hingress) fun _ => Ensures.ret hrefl

/-- So does `clear_history`. -/
theorem ensures_clearHistory_of {R : Database → Database → Prop} (hrefl : ∀ db, R db db)
    (htrans : ∀ db db' db'', R db db' → R db' db'' → R db db'')
    (hattempts : ∀ db : Database, R db { db with
      deliveryAttempts := db.deliveryAttempts.delete fun a =>
        (db.deliveryJobs.find? a.jobId).any Database.isTerminal })
    (hjobs : ∀ db : Database, R db
      { db with deliveryJobs := db.deliveryJobs.delete Database.isTerminal }.cascadeJobs)
    (hevents : ∀ db : Database, R db { db with events := db.events.delete (!db.isParent ·) })
    (hingress : ∀ db : Database, R db
      { db with ingressEvents := db.ingressEvents.delete (·.state ≠ .pending) }) :
    Ensures clearHistory fun db _ db' => R db db' := by
  have hstatement : ∀ {α} {e : AppError} {q : Database → α × Database}, (∀ db, R db (q db).2) →
      Ensures (statement e fun db => .ok (q db)) fun db _ db' => R db db' := by
    intro α e q hq
    refine ensures_statement.mono fun db a db' h => ?_
    have := hq db
    rw [Except.ok.inj h] at this
    exact this
  have hbind : ∀ {α β} {x : Tx α} {f : α → Tx β}, Ensures x (fun db _ db' => R db db') →
      (∀ a, Ensures (f a) fun db _ db' => R db db') → Ensures (x >>= f) fun db _ db' => R db db' :=
    fun hx hf => hx.bind hf fun _ _ _ _ _ => htrans _ _ _
  refine hbind (hstatement hrefl) fun _ => ensures_transaction ?_
  refine hbind (hstatement hattempts) fun _ => ?_
  refine hbind (hstatement hjobs) fun _ => ?_
  refine hbind (hstatement hevents) fun _ => ?_
  exact hbind (hstatement hingress) fun _ => Ensures.ret hrefl

/-- The rows of `ingress_events` that meet `p` stay there. -/
def Database.KeepsIngress (p : IngressRow → Prop) (db db' : Database) : Prop :=
  ∀ k r, db.ingressEvents.find? k = some r → p r → db'.ingressEvents.find? k = some r

namespace Database.KeepsIngress

variable {p : IngressRow → Prop}

theorem refl (db : Database) : db.KeepsIngress p db := fun _ _ h _ => h

theorem trans {db db' db'' : Database} (h : db.KeepsIngress p db') (h' : db'.KeepsIngress p db'') :
    db.KeepsIngress p db'' := fun k r hr hp => h' k r (h k r hr hp) hp

theorem of_eq {db db' : Database} (h : db'.ingressEvents = db.ingressEvents) :
    db.KeepsIngress p db' := fun _ _ hr _ => h ▸ hr

end Database.KeepsIngress

/-- A pass keeps the rows that wait, and those that were received since the cutoff. -/
theorem ensures_deleteExpired : Ensures (deleteExpired cutoff) fun db _ db' =>
    db.KeepsIngress (fun r => r.state = .pending ∨ cutoff ≤ r.receivedAt) db' := by
  refine ensures_deleteExpired_of .refl (fun _ _ _ => .trans) (fun _ => .of_eq rfl)
    (fun _ => .of_eq rfl) (fun _ => .of_eq rfl) fun db k r hr hp => ?_
  refine Table.find?_deleteFirst hr ?_
  rw [decide_eq_false_iff_not, not_and, Int.not_lt]
  exact fun hstate => hp.resolve_left hstate

/-- `clear_history` keeps the rows that wait. -/
theorem ensures_clearHistory : Ensures clearHistory fun db _ db' =>
    db.KeepsIngress (·.state = .pending) db' := by
  refine ensures_clearHistory_of .refl (fun _ _ _ => .trans) (fun _ => .of_eq rfl)
    (fun _ => .of_eq rfl) (fun _ => .of_eq rfl) fun db k r hr hp => ?_
  rw [Table.find?_delete, hr, Option.filter_some, if_pos]
  simpa using hp

/-- Some jobs were deleted, all of them with `p`, and some events that no job is left of. -/
structure Database.Prunes (p : JobRow → Prop) (db db' : Database) : Prop where
  keeps : ∀ k j, db.deliveryJobs.find? k = some j → ¬p j → db'.deliveryJobs.find? k = some j
  jobs : ∀ k j, db'.deliveryJobs.find? k = some j → db.deliveryJobs.find? k = some j
  parents : ∀ j ∈ db'.deliveryJobs.rows, db'.events.find? j.eventId = db.events.find? j.eventId
  rules : db'.globalRules = db.globalRules ∧ db'.ruleOverrides = db.ruleOverrides

namespace Database.Prunes

variable {p : JobRow → Prop}

theorem refl (db : Database) : db.Prunes p db :=
  ⟨fun _ _ h _ => h, fun _ _ h => h, fun _ _ => rfl, rfl, rfl⟩

theorem trans {db db' db'' : Database} (h : db.Prunes p db') (h' : db'.Prunes p db'') :
    db.Prunes p db'' where
  keeps k j hj hp := h'.keeps k j (h.keeps k j hj hp) hp
  jobs k j hj := h.jobs k j (h'.jobs k j hj)
  parents j hj := by
    have hj' : j ∈ db'.deliveryJobs.rows :=
      Table.mem_rows_iff.mpr (h'.jobs _ j (Table.mem_rows_iff.mp hj))
    exact (h'.parents j hj).trans (h.parents j hj')
  rules := ⟨h'.rules.1.trans h.rules.1, h'.rules.2.trans h.rules.2⟩

/-- A change to other tables. -/
theorem of_eq {db db' : Database} (hjobs : db'.deliveryJobs = db.deliveryJobs)
    (hevents : db'.events = db.events) (hglobal : db'.globalRules = db.globalRules)
    (hoverrides : db'.ruleOverrides = db.ruleOverrides) : db.Prunes p db' where
  keeps k j hj _ := by rw [hjobs, hj]
  jobs k j hj := by rw [← hjobs, hj]
  parents j _ := by rw [hevents]
  rules := ⟨hglobal, hoverrides⟩

/-- Jobs that meet `p` are deleted. -/
theorem of_jobs {db db' : Database} (hevents : db'.events = db.events)
    (hkeeps : ∀ k j, db.deliveryJobs.find? k = some j → ¬p j → db'.deliveryJobs.find? k = some j)
    (hjobs : ∀ k j, db'.deliveryJobs.find? k = some j → db.deliveryJobs.find? k = some j)
    (hglobal : db'.globalRules = db.globalRules) (hoverrides : db'.ruleOverrides = db.ruleOverrides) :
    db.Prunes p db' :=
  ⟨hkeeps, hjobs, fun _ _ => by rw [hevents], hglobal, hoverrides⟩

/-- Events that are no parents are deleted. -/
theorem of_events {db db' : Database} (hjobs : db'.deliveryJobs = db.deliveryJobs)
    (hkeeps : ∀ k e, db.events.find? k = some e → db.isParent e → db'.events.find? k = some e)
    (hevents : ∀ k e, db'.events.find? k = some e → db.events.find? k = some e)
    (hglobal : db'.globalRules = db.globalRules) (hoverrides : db'.ruleOverrides = db.ruleOverrides) :
    db.Prunes p db' where
  keeps k j hj _ := by rw [hjobs, hj]
  jobs k j hj := by rw [← hjobs, hj]
  parents j hj := by
    rw [hjobs] at hj
    cases hfind : db.events.find? j.eventId with
    | none =>
      rw [Option.eq_none_iff_forall_not_mem]
      intro e he
      rw [hevents _ e he] at hfind
      cases hfind
    | some e =>
      refine hkeeps _ e hfind ?_
      simp only [Database.isParent, List.any_eq_true, decide_eq_true_eq]
      exact ⟨j, hj, (Table.find?_key hfind).symm⟩
  rules := ⟨hglobal, hoverrides⟩

end Database.Prunes

/-- A pass deletes jobs that were made before the cutoff, whatever their state. -/
theorem prunes_deleteExpired : Ensures (deleteExpired cutoff) fun db _ db' =>
    db.Prunes (·.createdAt < cutoff) db' := by
  refine ensures_deleteExpired_of .refl (fun _ _ _ => .trans) (fun _ => .of_eq rfl rfl rfl rfl)
    (fun db => ?_) (fun db => ?_) fun _ => .of_eq rfl rfl rfl rfl
  · refine .of_jobs rfl (fun k j hj hp => ?_) (fun k j hj => ?_) rfl rfl
    · exact Table.find?_deleteFirst hj (decide_eq_false hp)
    · exact Table.find?_of_deleteFirst hj
  · refine .of_events rfl (fun k e he hparent => ?_) (fun k e he => ?_) rfl rfl
    · exact Table.find?_deleteFirst he (by simp [hparent])
    · exact Table.find?_of_deleteFirst he

/-- `clear_history` deletes jobs that are over. -/
theorem prunes_clearHistory : Ensures clearHistory fun db _ db' =>
    db.Prunes (Database.isTerminal ·) db' := by
  refine ensures_clearHistory_of .refl (fun _ _ _ => .trans) (fun _ => .of_eq rfl rfl rfl rfl)
    (fun db => ?_) (fun db => ?_) fun _ => .of_eq rfl rfl rfl rfl
  · refine .of_jobs rfl (fun k j hj hp => ?_) (fun k j hj => ?_) rfl rfl
    · change (db.deliveryJobs.delete _).find? k = some j
      rw [Table.find?_delete, hj, Option.filter_some, if_pos]
      simpa using hp
    · change (db.deliveryJobs.delete _).find? k = some j at hj
      rw [Table.find?_delete, Option.filter_eq_some_iff] at hj
      exact hj.1
  · refine .of_events rfl (fun k e he hparent => ?_) (fun k e he => ?_) rfl rfl
    · change (db.events.delete _).find? k = some e
      rw [Table.find?_delete, he, Option.filter_some, if_pos]
      simpa using hparent
    · change (db.events.delete _).find? k = some e at he
      rw [Table.find?_delete, Option.filter_eq_some_iff] at he
      exact he.1

theorem deleteExpired_error (h : deleteExpired cutoff c = (.error e, c')) : c'.db = c.db :=
  transaction_error h

theorem clearHistory_error (h : clearHistory c = (.error e, c')) : c'.db = c.db := by
  rcases Txn.bind_error h with h | ⟨u, c₁, h₁, h₂⟩
  · exact statement_error h
  · exact (transaction_error h₂).trans (ensures_connect h₁)

/-- The days are at least one. -/
theorem retentionSettings_pos (h : retentionSettings c = (.ok days, c')) : 1 ≤ days := by
  obtain ⟨settings, c₁, -, h₂⟩ := Txn.bind_ok_iff.mp h
  cases h₂
  cases settings with
  | none => exact Nat.le_add_left 1 29
  | some settings => exact Nat.le_min.mpr ⟨Nat.le_max_right _ _, Nat.le_add_left 1 364⟩

/-- The days that a pass finds in the settings. -/
def Conn.retentionDays (c : Conn) : Option Nat := ((do connect; retentionSettings) c).1.toOption

theorem Conn.retentionDays_pos {c : Conn} (h : c.retentionDays = some days) : 1 ≤ days := by
  obtain ⟨_, c₁, -, h₂⟩ := Txn.bind_ok_iff.mp (ok_run h)
  exact retentionSettings_pos h₂

/-- A pass changes nothing, or deletes what is older than the settings say, also when it ends with an
error. -/
theorem runOnce_run (h : runOnce now c = (r, c')) : c'.db = c.db ∨ ∃ days,
    c.retentionDays = some days ∧
      c.db.Prunes (·.createdAt < now - Duration.days days) c'.db := by
  rcases Txn.bind_cases h with ⟨e, h₁, -⟩ | ⟨u, c₁, h₁, h⟩
  · exact .inl (statement_error h₁)
  have hc₁ : c₁.db = c.db := ensures_connect h₁
  rcases Txn.bind_cases h with ⟨e, h₂, -⟩ | ⟨days, c₂, h₂, h⟩
  · exact .inl ((ReadsOnly.retentionSettings.run h₂).trans hc₁)
  have hc₂ : c₂.db = c.db := (ReadsOnly.retentionSettings.ok h₂).trans hc₁
  have hdays : c.retentionDays = some days := by
    have hrun : (connect >>= fun _ => retentionSettings) c = (.ok days, c₂) :=
      Txn.bind_ok_iff.mpr ⟨u, c₁, h₁, h₂⟩
    rw [Conn.retentionDays, hrun]
    rfl
  rcases Txn.bind_cases h with ⟨e, h₃, -⟩ | ⟨stats, c₃, h₃, h⟩
  · exact .inl ((deleteExpired_error h₃).trans hc₂)
  refine .inr ⟨days, hdays, ?_⟩
  have hprunes : c.db.Prunes (·.createdAt < now - Duration.days days) c₃.db :=
    hc₂ ▸ prunes_deleteExpired h₃
  rcases Txn.bind_cases h with ⟨e, h₄, -⟩ | ⟨vacuumed, c₄, h₄, h₅⟩
  · exact ReadsOnly.shouldVacuum.run h₄ ▸ hprunes
  · cases h₅
    exact ReadsOnly.shouldVacuum.run h₄ ▸ hprunes

/-- `clear_history` deletes jobs that are over, or nothing. -/
theorem clearHistory_run (h : clearHistory c = (r, c')) :
    c.db.Prunes (Database.isTerminal ·) c'.db := by
  rcases r with e | n
  · rw [clearHistory_error h]
    exact .refl c.db
  · exact prunes_clearHistory h

end CcReminder
