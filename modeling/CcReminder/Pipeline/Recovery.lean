import CcReminder.Pipeline.Custody
import CcReminder.Storage.Queue.Report
import CcReminder.Storage.Spool.Drains

/-!
# Recovery at startup

What an earlier run of the application, or the helper, has left behind is recovered once when the
application starts: rows in `processing` are reset, the spool is drained, and one batch of rows is
processed. The batch and the drain are bounded. Within the batch a row that cannot be processed holds up
no other row.
-/

set_option autoImplicit true

namespace CcReminder

open Lib Host

namespace EventPipeline

variable (p : EventPipeline)

/-- What waits is collected in `ingress_events`: of `lib.rs`, `recover_stale_ingress` and the drain. -/
def collectIngress : Txn AppError Host Unit := do
  onConn recoverStaleIngress
  let _ ← (do
    Spool.new
    let _ ← Spool.drain p.sv 500 : Txn AppError Host Unit).result

/-- The whole recovery, whose errors are dropped or logged. -/
def recoverAtStartup : Txn AppError Host Unit := do
  p.collectIngress
  let _ ← (onConn p.recoverIngress).result

end EventPipeline

/-! ## One attempt after the other -/

namespace EventPipeline

variable {p : EventPipeline}

/-- An attempt fails and leaves the tables alone, or its event is recorded and its row is gone. -/
theorem processSafe_run (h : p.processSafeIngressWith template safe c = (r, c')) :
    c'.db = c.db ∨ (c'.db.events.find? safe.eventId).isSome ∧
      (∀ k, (c.db.events.find? k).isSome → (c'.db.events.find? k).isSome) ∧
      c'.db.ingressEvents = c.db.ingressEvents.delete (·.id = safe.eventId) := by
  rcases Txn.bind_cases h with ⟨e, hplan, -⟩ | ⟨plan, c₁, hplan, hcommit⟩
  · exact .inl (ReadsOnly.planSafe.run hplan)
  have hdb₁ : c₁.db = c.db := ReadsOnly.planSafe.run hplan
  have hid := planSafe_id hplan
  cases commitSafe_run hcommit with
  | error hdb => exact .inl (hdb.trans hdb₁)
  | duplicate hseen hdb =>
    rw [hdb₁] at hseen hdb
    rw [hid] at hseen hdb
    rw [hdb]
    exact .inr ⟨hseen, fun _ => id, rfl⟩
  | processed hseen hrec hingress =>
    have hrecorded := Plan.Recorded.event_isSome hrec
    obtain ⟨row, -, hevents⟩ := hrec.event
    rw [hid] at hrecorded hevents hingress
    rw [hdb₁] at hevents hingress
    refine .inr ⟨hrecorded, fun k hk => ?_, hingress⟩
    by_cases hk' : k = safe.eventId
    · rwa [hk']
    · rw [hevents, if_neg hk', hk]

/-- Each of the events was attempted, on what the attempts before it had left, whether or not these
succeeded. -/
inductive Attempts (p : EventPipeline) (template : Option String) :
    List SafeIngressEvent → Conn → Conn → Prop
  | nil : Attempts p template [] c c
  | cons (hrun : p.processSafeIngressWith template safe c = (r, c₁))
    (hrest : Attempts p template safes c₁ c₂) : Attempts p template (safe :: safes) c c₂

namespace Attempts

/-- No event is lost again, and a row goes only when its event is recorded. -/
theorem outcome (h : p.Attempts template safes c c') :
    (∀ k, (c.db.events.find? k).isSome → (c'.db.events.find? k).isSome) ∧
    ∀ k r, c.db.ingressEvents.find? k = some r →
      c'.db.ingressEvents.find? k = some r ∨ (c'.db.events.find? k).isSome := by
  induction h with
  | nil => exact ⟨fun _ => id, fun _ _ => .inl⟩
  | @cons safe c r c₁ safes c₂ hrun _ ih =>
    obtain ⟨hevents, hrows⟩ := ih
    rcases processSafe_run hrun with hdb | ⟨hrecorded, hkept, hingress⟩
    · rw [hdb] at hevents hrows
      exact ⟨hevents, hrows⟩
    · refine ⟨fun k hk => hevents k (hkept k hk), fun k r hr => ?_⟩
      by_cases hk : k = safe.eventId
      · exact .inr (hevents k (hk ▸ hrecorded))
      · refine hrows k r ?_
        have hid : r.id = k := Table.find?_key hr
        rw [hingress, Table.find?_delete, hr, Option.filter_some, if_pos]
        simpa [hid] using hk

end Attempts

theorem attempt_run {x : Tx α} (c : Conn) : ∃ a, attempt x c = (.ok a, (x c).2) := by
  rw [attempt, Txn.step_run]
  rcases x c with ⟨e | a, c'⟩
  · exact ⟨none, rfl⟩
  · exact ⟨some a, rfl⟩

/-- **The loop.** An attempt that fails does not end it. -/
theorem each_attempts (template : Option String) (safes : List SafeIngressEvent) (c : Conn) : ∃ c',
    Txn.each (fun safe => do let _ ← attempt (p.processSafeIngressWith template safe)) safes c =
      (.ok (), c') ∧ p.Attempts template safes c c' := by
  induction safes generalizing c with
  | nil => exact ⟨c, rfl, .nil⟩
  | cons safe safes ih =>
    obtain ⟨a, hattempt⟩ := attempt_run (x := p.processSafeIngressWith template safe) c
    obtain ⟨c', hrest, hattempts⟩ := ih (p.processSafeIngressWith template safe c).2
    refine ⟨c', ?_, .cons rfl hattempts⟩
    simp only [Txn.each, Txn.bind_run, hattempt, Txn.pure_run, hrest]

/-- **Any batch.** Unless the batch cannot be taken, which leaves the tables alone, each of its events is
attempted. -/
theorem recoverIngress_run (h : p.recoverIngress c = (r, c')) : c'.db = c.db ∨
    ∃ template safes c₀ c₁, c₀.db = c.db ∧ takeIngressBatch 50 c₀ = (.ok safes, c₁) ∧
      p.Attempts template safes c₁ c' := by
  have htemplate : ReadsOnly globalNotificationTemplate :=
    (ReadsOnly.attempt ReadsOnly.read).bind fun _ => .pure _
  rcases Txn.bind_cases h with ⟨e, h₀, -⟩ | ⟨template, c₀, h₀, h⟩
  · exact .inl (htemplate.run h₀)
  have hdb₀ : c₀.db = c.db := htemplate.run h₀
  rcases Txn.bind_cases h with ⟨e, h₁, -⟩ | ⟨safes, c₁, h₁, h⟩
  · left
    unfold takeIngressBatch at h₁
    rw [if_neg (by decide)] at h₁
    exact (immediate_error h₁).trans hdb₀
  obtain ⟨c₂, heach, hattempts⟩ := each_attempts (p := p) template safes c₁
  rw [Txn.bind_run, heach] at h
  cases h
  exact .inr ⟨template, safes, c₀, c₁, hdb₀, h₁, hattempts⟩

end EventPipeline

/-! ## Without faults -/

theorem Database.find?_resetIngress {db : Database} : db.resetIngress.ingressEvents.find? k =
    (db.ingressEvents.find? k).map fun r => { r with state := .pending } := by
  rw [Database.resetIngress, Table.find?_update]
  congr 1
  funext r
  obtain ⟨id, safeEnvelope, receivedAt, state⟩ := r
  cases state <;> rfl

theorem Database.find?_takeIngress {db : Database} {id : Uuid} : (db.takeIngress id).ingressEvents.find? k =
    (db.ingressEvents.find? k).map fun r => if k = id then { r with state := .processing } else r := by
  rw [Database.takeIngress, Table.find?_update]
  cases hk : db.ingressEvents.find? k with
  | none => rfl
  | some r =>
    obtain rfl : r.id = k := Table.find?_key hk
    obtain ⟨rid, safeEnvelope, receivedAt, state⟩ := r
    by_cases hk' : rid = id <;> cases state <;> simp [hk']

theorem recoverStale_quiet (hquiet : c.Quiet) : ∃ c', recoverStaleIngress c = (.ok (), c') ∧
    c'.Quiet ∧ c'.db = c.db.resetIngress := by
  refine ⟨{ c.skip 2 with db := c.db.resetIngress }, ?_, hquiet.skip 2, rfl⟩
  simp only [recoverStaleIngress, attempt, connect, execute, statement, draw, Txn.bind_run,
    Txn.step_run, hquiet 0, hquiet 1, Bool.false_eq_true, if_false, Txn.pure_run]
  rfl

theorem takeRows_quiet {rows : List IngressRow} {safes : List SafeIngressEvent} (hquiet : c.Quiet)
    (hrows : rows.map (·.safeEnvelope) = safes.map some) : ∃ c', takeRows rows c = (.ok safes, c') ∧
      c'.Quiet ∧ ∀ k, c'.db.ingressEvents.find? k = (c.db.ingressEvents.find? k).map fun r =>
        if k ∈ rows.map (·.id) then { r with state := .processing } else r := by
  induction rows generalizing c safes with
  | nil =>
    cases safes with
    | nil => exact ⟨c, rfl, hquiet, fun k => by simp⟩
    | cons safe safes => cases hrows
  | cons row rows ih =>
    cases safes with
    | nil => cases hrows
    | cons safe safes =>
      obtain ⟨hrow, hrows⟩ := List.cons.inj hrows
      obtain ⟨c', hrun, hquiet', hfind⟩ := ih
        (c := { c.skip 1 with db := c.db.takeIngress row.id }) (hquiet.skip 1) hrows
      refine ⟨c', ?_, hquiet', fun k => ?_⟩
      · simp only [takeRows, hrow, Txn.bind_run, hquiet.execute, hrun, Txn.pure_run]
      · rw [hfind, Database.find?_takeIngress, Option.map_map]
        congr 1
        funext r
        by_cases hk : k = row.id <;> by_cases hk' : k ∈ rows.map (·.id) <;> simp [hk, hk']

theorem takeIngressBatch_quiet {safes : List SafeIngressEvent} (hquiet : c.Quiet)
    (hrows : (c.db.pendingIngress 50).map (·.safeEnvelope) = safes.map some) : ∃ c',
      takeIngressBatch 50 c = (.ok safes, c') ∧
      ∀ k, c'.db.ingressEvents.find? k = (c.db.ingressEvents.find? k).map fun r =>
        if k ∈ (c.db.pendingIngress 50).map (·.id) then { r with state := .processing } else r := by
  have hquery := (hquiet.skip 2).query (f := (·.pendingIngress 50))
  obtain ⟨c₁, hrun, hquiet₁, hfind⟩ := takeRows_quiet ((hquiet.skip 2).skip 1) hrows
  refine ⟨{ c₁ with world := fun n => c₁.world (n + 1) }, ?_, hfind⟩
  rw [takeIngressBatch, if_neg (by decide)]
  refine immediate_ok_iff.mpr ⟨hquiet 0, hquiet 1, c₁, ?_, hquiet₁ 0, rfl⟩
  exact Txn.bind_ok_iff.mpr ⟨_, _, hquery, hrun⟩

namespace EventPipeline

variable {p : EventPipeline} {h : Host}

theorem recoverIngress_quiet {safes : List SafeIngressEvent} (hquiet : c.Quiet)
    (hrows : (c.db.pendingIngress 50).map (·.safeEnvelope) = safes.map some) :
    ∃ template c₁ c', p.recoverIngress c = (.ok safes.length, c') ∧
      p.Attempts template safes c₁ c' ∧
      ∀ k, c₁.db.ingressEvents.find? k = (c.db.ingressEvents.find? k).map fun r =>
        if k ∈ (c.db.pendingIngress 50).map (·.id) then { r with state := .processing } else r := by
  have htemplate : ReadsOnly globalNotificationTemplate ∧ Advances globalNotificationTemplate :=
    ⟨(ReadsOnly.attempt ReadsOnly.read).bind fun _ => .pure _,
      (Advances.attempt Advances.read).bind fun _ => .pure _⟩
  obtain ⟨template, c₀, h₀⟩ : ∃ template c₀, globalNotificationTemplate c = (.ok template, c₀) := by
    obtain ⟨settings, hsettings⟩ := attempt_run (x := getSettings) c
    exact ⟨_, _, by rw [globalNotificationTemplate, Txn.bind_run, hsettings]; rfl⟩
  have hdb₀ : c₀.db = c.db := htemplate.1.run h₀
  have hquiet₀ : c₀.Quiet := hquiet.precedes (htemplate.2.ok h₀)
  obtain ⟨c₁, h₁, hfind⟩ := takeIngressBatch_quiet hquiet₀ (by rw [hdb₀, hrows])
  obtain ⟨c', heach, hattempts⟩ := each_attempts (p := p) template safes c₁
  refine ⟨template, c₁, c', ?_, hattempts, by rwa [hdb₀] at hfind⟩
  simp only [recoverIngress, Txn.bind_run, h₀, h₁, heach, Txn.pure_run]

/-- What has been collected: the rows that were left in `processing` wait again, and each file that the
drain takes is in `ingress_events` or under `rejected`. -/
structure Collects (sv : Services) (h h' : Host) : Prop where
  rows : ∀ {k r}, h.conn.db.ingressEvents.find? k = some r →
    h'.conn.db.ingressEvents.find? k = some { r with state := .pending }
  pending : ∀ r ∈ h'.conn.db.ingressEvents.rows, r.state = .pending
  files : ∀ path ∈ h.spool.candidates.take 500, h'.spool.files.find? path = none
  spooled : ∀ path ∈ h.spool.candidates.take 500, ∀ {f event},
    h.spool.files.find? path = some f → Spool.parse sv f.bytes = some event →
      (h'.conn.db.ingressEvents.find? event.eventId).isSome
  rejected : ∀ path ∈ h.spool.candidates.take 500, ∀ {f},
    h.spool.files.find? path = some f → Spool.parse sv f.bytes = none →
      ∃ r ∈ h'.spool.rejected.rows, r.bytes = f.bytes

theorem collectIngress_quiet (hquiet : h.Quiet) : ∃ h', p.collectIngress h = (.ok (), h') ∧
    h'.Quiet ∧ Collects p.sv h h' := by
  obtain ⟨c₁, hrun₁, hquiet₁, hdb₁⟩ := recoverStale_quiet hquiet
  have hpermission : ∀ {h : Host}, h.Quiet → ∃ h', fileOp permissionError (fun s => some ((), s)) h =
      (.ok (), h') ∧ h'.Quiet ∧ h'.spool = h.spool ∧ h'.conn.db = h.conn.db := fun hquiet =>
    Spool.fileOp_quiet hquiet rfl
  obtain ⟨h₂, hrun₂, hquiet₂, hspool₂, hdb₂⟩ := hpermission
    (show Host.Quiet { h with conn := c₁ } from hquiet₁)
  obtain ⟨h₃, hrun₃, hquiet₃, hspool₃, hdb₃⟩ := hpermission hquiet₂
  obtain ⟨h₄, hrun₄, hquiet₄, hspool₄, hdb₄⟩ := hpermission hquiet₃
  obtain ⟨h₅, hrun₅, hquiet₅, hspool₅, hdb₅⟩ := hpermission hquiet₄
  have hspool : h₅.spool = h.spool := hspool₅.trans (hspool₄.trans (hspool₃.trans hspool₂))
  have hdb : h₅.conn.db = h.conn.db.resetIngress :=
    hdb₅.trans (hdb₄.trans (hdb₃.trans (hdb₂.trans hdb₁)))
  obtain ⟨events, h₆, hrun₆, hdrained⟩ := Spool.drain_quiet p.sv hquiet₅ 500
  obtain ⟨hquiet₆, hingress, hevent, -, hreject, hgone, -, -⟩ := hdrained
  rw [hspool] at hevent hreject hgone
  rw [hdb] at hingress
  refine ⟨h₆, ?_, hquiet₆, fun {k r} hr => ?_, fun r hr => ?_, hgone, hevent, hreject⟩
  · simp only [collectIngress, onConn, Txn.bind_run, hrun₁, Txn.result_run, Spool.new, hrun₂, hrun₃,
      hrun₄, hrun₅, hrun₆, Txn.pure_run]
  · exact hingress.kept (by rw [Database.find?_resetIngress, hr, Option.map_some])
  · rcases hingress.added (Table.mem_rows_iff.mp hr) with hold | hnew
    · rw [Database.find?_resetIngress] at hold
      obtain ⟨r', -, hr'⟩ := Option.map_eq_some_iff.mp hold
      rw [← hr']
    · exact hnew

end EventPipeline

/-- The event of the row is recorded, or an attempt to process it has failed. -/
def Database.Attempted (db : Database) (row : IngressRow) : Prop :=
  (db.events.find? row.id).isSome ∨
    db.ingressEvents.find? row.id = some { row with state := .processing }

instance (db : Database) (row : IngressRow) : Decidable (db.Attempted row) :=
  inferInstanceAs (Decidable (_ ∨ _))

namespace Recovery

open Intake

/-- An event that waits, of a hook that may not be in the catalog. -/
def row (sourceEvent : String) (n : Nat) : IngressRow where
  id := n
  safeEnvelope := some { stopped with eventId := n, sourceEvent }
  receivedAt := n
  state := .pending

/-- A host on which these rows wait. -/
def host (sourceEvent : String) (count : Nat)
    (h : (((List.range count).map (row sourceEvent)).map (·.id)).Nodup) : Host :=
  { start.host with conn := { start.host.conn with
    db := { start.host.conn.db with ingressEvents := ⟨(List.range count).map (row sourceEvent), h⟩ } } }

def single : Host := host "Stop" 1 (by decide)

def crowded : Host := host "Unknown" 51 (by decide)

end Recovery

end CcReminder
