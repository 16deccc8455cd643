import CcReminder.Pipeline.Processable
import CcReminder.Storage.Queue.Report
import CcReminder.Storage.Retention

/-!
# Housekeeping and active work

`clear_history` looks at the state of a job, a retention pass at its age alone. No accepted rule
gives a job more than a day to live and no retention is shorter than a day, so what a pass deletes
is past its TTL. But a job may be in `sending` past its TTL: the pass takes it away from its worker.
-/

set_option autoImplicit true

namespace CcReminder

open Lib

/-! ## The age of a job -/

/-- The clock never steps back. -/
def Conn.Forward (c : Conn) : Prop := ∀ m n, m ≤ n → (c.world m).utcNow ≤ (c.world n).utcNow

theorem Conn.Forward.precedes {c c' : Conn} (h : c.Forward) (hp : c.Precedes c') : c'.Forward := by
  obtain ⟨k, hk⟩ := hp
  intro m n hmn
  rw [hk]
  exact h _ _ (Nat.add_le_add_right hmn k)

/-- A job expires at most a day after its row was made. -/
def JobRow.Brief (j : JobRow) : Prop := j.expiresAt ≤ j.createdAt + Duration.seconds 86400

/-- `pending`, `retry_wait` or `sending`. -/
def JobRow.isActive (j : JobRow) : Prop := j.isWaiting ∨ j.state = .sending

/-- The lease of a job that is being sent has not run out. -/
def JobRow.hasLiveLease (j : JobRow) (now : DateTime) : Prop :=
  j.state = .sending ∧ ∃ t, j.leaseExpiresAt = some t ∧ now < t

/-- The jobs after a computation were there before it, or are brief; the rules are the same. -/
structure Database.AddsBrief (db db' : Database) : Prop where
  jobs : ∀ k j, db'.deliveryJobs.find? k = some j → db.deliveryJobs.find? k = some j ∨ j.Brief
  rules : db'.globalRules = db.globalRules ∧ db'.ruleOverrides = db.ruleOverrides

namespace Database.AddsBrief

theorem of_eq {db db' : Database} (hjobs : db'.deliveryJobs = db.deliveryJobs)
    (hrules : db'.globalRules = db.globalRules ∧ db'.ruleOverrides = db.ruleOverrides) :
    db.AddsBrief db' := ⟨fun _ _ hj => .inl (hjobs ▸ hj), hrules⟩

theorem refl (db : Database) : db.AddsBrief db := of_eq rfl ⟨rfl, rfl⟩

theorem trans {db db' db'' : Database} (h : db.AddsBrief db') (h' : db'.AddsBrief db'') :
    db.AddsBrief db'' where
  jobs k j hj := (h'.jobs k j hj).elim (h.jobs k j) .inr
  rules := ⟨h'.rules.1.trans h.rules.1, h'.rules.2.trans h.rules.2⟩

end Database.AddsBrief

/-- With a clock that never steps back, a computation adds only brief jobs. -/
def Tx.Brief (x : Tx α) : Prop :=
  Txn.Ensures x fun c _ c' => c.Forward → c.db.AddsBrief c'.db ∧ c'.Forward

namespace Tx.Brief

theorem bind {x : Tx α} {f : α → Tx β} (hx : Tx.Brief x) (hf : ∀ a, Tx.Brief (f a)) :
    Tx.Brief (x >>= f) := by
  refine Txn.Ensures.bind hx hf fun c a c' b c'' h h' hforward => ?_
  obtain ⟨hadds, hforward'⟩ := h hforward
  obtain ⟨hadds', hforward''⟩ := h' hforward'
  exact ⟨hadds.trans hadds', hforward''⟩

/-- A computation that leaves the jobs and the rules alone. -/
theorem of_ensures {x : Tx α} {R : Database → α → Database → Prop} (hadvances : Advances x)
    (hx : Ensures x R) (hR : ∀ db a db', R db a db' → db.AddsBrief db') : Tx.Brief x :=
  fun _ _ _ hrun hforward => ⟨hR _ _ _ (hx hrun), hforward.precedes (hadvances.ok hrun)⟩

theorem of_readsOnly {x : Tx α} (hadvances : Advances x) (hx : ReadsOnly x) : Tx.Brief x :=
  of_ensures (R := fun db _ db' => db' = db) hadvances (fun _ _ _ hrun => hx.ok hrun)
    fun db _ _ h => h ▸ .refl db

theorem immediate {body : Tx α} (hbody : Tx.Brief body) : Tx.Brief (immediate body) := by
  intro c a c' hrun hforward
  obtain ⟨c₁, hbodyrun, rfl⟩ := immediate_ok hrun
  have hforward₁ : Conn.Forward { c with world := fun n => c.world (n + 2) } :=
    hforward.precedes ⟨2, rfl⟩
  obtain ⟨hadds, hforward₂⟩ := hbody hbodyrun hforward₁
  have hforward₃ : Conn.Forward { c₁ with world := fun n => c₁.world (n + 1) } :=
    hforward₂.precedes ⟨1, rfl⟩
  exact ⟨hadds, hforward₃⟩

theorem pure (a : α) : Tx.Brief (Pure.pure a) := of_readsOnly (.pure a) (.pure a)

end Tx.Brief

theorem Advances.enqueueInTx {sha256} : Advances (enqueueInTx sha256 job) :=
  draw.bind fun _ => statement.bind fun existing => by
    cases existing with
    | some id => exact pure _
    | none => exact statement.bind fun _ => pure _

/-- The time to live of the jobs of a plan. -/
def Plan.ttl (plan : Plan) : Int := max plan.resolved.config.delivery.ttlSeconds.toNat 1

/-- A job is queued under an expiry that was taken from an earlier reading of the clock. -/
theorem enqueueInTx_brief {sha256} (hrun : enqueueInTx sha256 job c = (.ok r, c'))
    (hforward : c.Forward) (hexpires : job.expiresAt ≤ (c.world 0).utcNow + Duration.seconds 86400) :
    c.db.AddsBrief c'.db ∧ c'.Forward := by
  refine ⟨?_, hforward.precedes (Advances.enqueueInTx.ok hrun)⟩
  obtain ⟨d, c₁, h₁, h⟩ := Txn.bind_ok_iff.mp hrun
  cases h₁
  obtain ⟨found, c₂, h₂, h⟩ := Txn.bind_ok_iff.mp h
  have hc₂ : c₂.db = c.db := (ensures_query h₂).2
  cases found with
  | some k =>
    cases h
    exact hc₂ ▸ .refl _
  | none =>
    obtain ⟨u, c₃, h₃, h₄⟩ := Txn.bind_ok_iff.mp h
    cases h₄
    obtain ⟨-, -, hjobs, hrest⟩ := Database.insertJob_ok (ensures_statement h₃)
    rw [hc₂] at hjobs hrest
    refine ⟨fun k j hj => ?_, by rw [hrest], by rw [hrest]⟩
    rw [hjobs k] at hj
    split at hj
    · cases hj
      exact .inr hexpires
    · exact .inl hj

theorem enqueueTargets_brief {sv : Services} {targets : List TargetConfig} (httl : plan.ttl ≤ 86400)
    (hrun : enqueueTargets sv plan document now targets c = (.ok u, c')) (hforward : c.Forward)
    (hnow : now ≤ (c.world 0).utcNow) : c.db.AddsBrief c'.db ∧ c'.Forward := by
  induction targets generalizing c with
  | nil =>
    cases hrun
    exact ⟨.refl _, hforward⟩
  | cons target targets ih =>
    obtain ⟨⟨⟩, c₁, h₁, hrest⟩ := Txn.bind_ok_iff.mp hrun
    obtain ⟨d, c₂, h₂, h₁⟩ := Txn.bind_ok_iff.mp h₁
    obtain ⟨r, c₃, h₃, h₄⟩ := Txn.bind_ok_iff.mp h₁
    cases h₄
    cases h₂
    have hlater : ∀ n, now ≤ (c.world n).utcNow := fun n => hnow.trans (hforward 0 n n.zero_le)
    have hforward₂ : Conn.Forward { c with world := fun n => c.world (n + 1) } :=
      hforward.precedes ⟨1, rfl⟩
    obtain ⟨hadds, hforward₁⟩ := enqueueInTx_brief h₃ hforward₂ (by
      have := hlater (0 + 1)
      simp only [jobFor, Plan.ttl, DateTime, Duration, Duration.seconds] at *
      omega)
    obtain ⟨m, hm⟩ := (Advances.enqueueInTx.ok h₃).draw 0
    obtain ⟨hadds', hforward'⟩ := ih hrest hforward₁ (hm ▸ hlater (m + 1))
    exact ⟨hadds.trans hadds', hforward'⟩

namespace EventPipeline

variable {p : EventPipeline}

theorem enqueueIfQueued_brief (httl : plan.ttl ≤ 86400) : Tx.Brief (p.enqueueIfQueued plan) := by
  intro c u c' hrun hforward
  unfold enqueueIfQueued at hrun
  split at hrun
  · obtain ⟨redactor, c₁, h₁, h⟩ := Txn.bind_ok_iff.mp hrun
    obtain ⟨-, rfl⟩ := liftExcept_ok h₁
    obtain ⟨envelope, c₂, h₂, h⟩ := Txn.bind_ok_iff.mp h
    obtain ⟨d, c₃, h₃, h₄⟩ := Txn.bind_ok_iff.mp h
    cases h₃
    have hdb₂ : c₂.db = c₁.db := ReadsOnly.loadEnvelopeForTemplate.ok h₂
    have hforward₂ := hforward.precedes (Advances.statement.ok h₂)
    have hforward₃ : Conn.Forward { c₂ with world := fun n => c₂.world (n + 1) } :=
      hforward₂.precedes ⟨1, rfl⟩
    obtain ⟨hadds, hforward'⟩ :=
      enqueueTargets_brief httl h₄ hforward₃ (hforward₂ 0 _ (Nat.zero_le _))
    exact ⟨hdb₂ ▸ hadds, hforward'⟩
  · cases hrun
    exact ⟨.refl _, hforward⟩

theorem eventAlreadySeen_brief : Tx.Brief (eventAlreadySeen eventId) :=
  .of_readsOnly .eventAlreadySeen ((ReadsOnly.attempt .query).bind fun _ => .pure _)

theorem recordEvent_brief : Tx.Brief (p.recordEvent plan) :=
  .of_ensures .recordEvent ensures_recordEvent fun _ _ _ h => by
    rw [h.2]
    exact .of_eq rfl ⟨rfl, rfl⟩

/-- The jobs that a transaction of the pipeline adds are brief. -/
theorem commitLive_brief (httl : plan.ttl ≤ 86400) : Tx.Brief (p.commitLive fp plan) := by
  refine .immediate <| .bind eventAlreadySeen_brief fun seen => ?_
  cases seen with
  | true => exact .pure _
  | false =>
    refine .bind recordEvent_brief fun _ => .bind (.of_readsOnly .draw .draw) fun _ => ?_
    refine .bind ?_ fun _ => .bind (enqueueIfQueued_brief httl) fun _ => .pure _
    refine .of_ensures .markHookSeenInTx ensures_markHookSeenInTx fun _ _ _ h => ?_
    rw [h]
    exact .of_eq rfl ⟨rfl, rfl⟩

theorem commitSafe_brief (httl : plan.ttl ≤ 86400) : Tx.Brief (p.commitSafe plan) := by
  have hdelete : ∀ eventId, Tx.Brief (deleteIngressInTx eventId) := fun _ =>
    .of_ensures .statement ensures_deleteIngressInTx fun _ _ _ h => by
      rw [h]
      exact .of_eq rfl ⟨rfl, rfl⟩
  refine .immediate <| .bind eventAlreadySeen_brief fun seen => ?_
  cases seen with
  | true => exact hdelete _
  | false => exact .bind recordEvent_brief fun _ => .bind (enqueueIfQueued_brief httl) fun _ => hdelete _

end EventPipeline

/-! ## Plans -/

namespace Rules.Accepted

variable {p : EventPipeline}

/-- Under accepted rules the rule for an event is accepted. -/
theorem validates (h : Rules.Accepted c)
    (hrun : p.resolveEffectiveRule envelope c = (.ok resolved, c')) :
    validateRule resolved.config = .ok () := by
  obtain ⟨global, c₁, h₁, hrun⟩ := Txn.bind_ok_iff.mp hrun
  obtain ⟨patch, c₂, h₂, hrun⟩ := Txn.bind_ok_iff.mp hrun
  cases hrun
  obtain ⟨hglobal, hdb⟩ := ensures_readRow h₁
  refine validateRule_resolveRule (h.rules _ _ hglobal) fun patch hpatch => ?_
  obtain ⟨row, rfl, rfl⟩ := Option.map_eq_some_iff.mp hpatch
  obtain ⟨id, -, hrow⟩ := EventPipeline.effectivePatch_ok h₂ _ rfl
  exact h.patches _ _ (hdb ▸ hrow)

/-- So the jobs of a plan live for a day at most. -/
theorem ttl {plan : Plan} (h : Rules.Accepted c)
    (hrun : p.resolveEffectiveRule envelope c = (.ok plan.resolved, c')) : plan.ttl ≤ 86400 := by
  obtain ⟨-, hle⟩ := ttlSeconds_of_validateRule (h.validates hrun)
  have hnat : plan.resolved.config.delivery.ttlSeconds.toNat ≤ 86400 := UInt32.le_iff_toNat_le.mp hle
  rw [Plan.ttl]
  omega

end Rules.Accepted

/-! ## Runs -/

/-- The tables, with the plans that the pipeline has made so far. -/
structure Housekeeping where
  conn : Conn
  plans : List Plan

namespace Housekeeping

inductive Act where
  | plan
  | commit
  | write
  | call
  | retain (now : DateTime)
  | clear (now : DateTime)
  | other
  deriving DecidableEq

/-- One step. A plan is made under the rules of the moment and committed at any time after; the
queue and the configuration are used by anyone; and what is left of the program may drop rows. -/
inductive Step (p : EventPipeline) : Housekeeping → Act → Housekeeping → Prop
  | plan {plan : Plan}
    (hresolved : p.resolveEffectiveRule envelope s.conn = (.ok plan.resolved, c')) :
    Step p s .plan ⟨c', plan :: s.plans⟩
  | live (hplan : plan ∈ s.plans) (hrun : p.commitLive fp plan s.conn = (r, c')) :
    Step p s .commit { s with conn := c' }
  | offline (hplan : plan ∈ s.plans) (hrun : p.commitSafe plan s.conn = (r, c')) :
    Step p s .commit { s with conn := c' }
  | write {op : ConfigOp} (hrun : op.run s.conn = (r, c')) : Step p s .write { s with conn := c' }
  | call {α : Type} {o : QueueOp α} {r : Except AppError α} (henqueue : ∀ job, o.kind ≠ .enqueue job)
    (hrun : o.run p.sv.sha256 s.conn = (r, c')) : Step p s .call { s with conn := c' }
  | retain (hrun : runOnce now s.conn = (r, c')) : Step p s (.retain now) { s with conn := c' }
  | clear (hrun : clearHistory s.conn = (r, c')) : Step p s (.clear now) { s with conn := c' }
  | other (hjobs : ∀ k j, c'.db.deliveryJobs.find? k = some j →
        s.conn.db.deliveryJobs.find? k = some j)
    (hrules : Rules.Step s.conn .other c') : Step p s .other { s with conn := c' }

/-- No jobs and no plans yet. -/
structure Initial (s : Housekeeping) : Prop where
  accepted : Rules.Accepted s.conn
  jobs : s.conn.db.deliveryJobs = ∅
  plans : s.plans = []

/-- The clock does not step back while jobs are queued, and no job in `sending` is older than the
retention when a pass runs. -/
def Allowed (s : Housekeeping) : Act → Prop
  | .commit => s.conn.Forward
  | .retain now => ∀ days, s.conn.retentionDays = some days → ∀ k j,
    s.conn.db.deliveryJobs.find? k = some j → j.state = .sending →
      now - Duration.days days ≤ j.createdAt
  | _ => True

/-- Rules are accepted, plans are for a day at most, and so are the jobs. -/
structure Inv (s : Housekeeping) : Prop where
  accepted : Rules.Accepted s.conn
  plans : ∀ plan ∈ s.plans, plan.ttl ≤ 86400
  jobs : ∀ k j, s.conn.db.deliveryJobs.find? k = some j → j.Brief

variable {p : EventPipeline} {s s' : Housekeeping}

theorem Inv.of_conn {c' : Conn} (h : Inv s) (haccepted : Rules.Accepted c')
    (hjobs : ∀ k j, c'.db.deliveryJobs.find? k = some j →
      s.conn.db.deliveryJobs.find? k = some j ∨ j.Brief) : Inv { s with conn := c' } :=
  ⟨haccepted, h.plans, fun k j hj => (hjobs k j hj).elim (h.jobs k j) id⟩

theorem Inv.of_addsBrief {c' : Conn} (h : Inv s) (hadds : s.conn.db.AddsBrief c'.db) :
    Inv { s with conn := c' } :=
  h.of_conn (h.accepted.of_rules hadds.rules.1 hadds.rules.2) hadds.jobs

theorem Inv.of_prunes {c' : Conn} {P : JobRow → Prop} (h : Inv s)
    (hprunes : s.conn.db.Prunes P c'.db) : Inv { s with conn := c' } :=
  h.of_conn (h.accepted.of_rules hprunes.rules.1 hprunes.rules.2)
    fun k j hj => .inl (hprunes.jobs k j hj)

/-- An operation of the queue keeps the times of a row, and leaves the rules alone. -/
theorem Inv.call {α : Type} {o : QueueOp α} {r : Except AppError α} {c' : Conn} (h : Inv s)
    (henqueue : ∀ job, o.kind ≠ .enqueue job) (hrun : o.run p.sv.sha256 s.conn = (r, c')) :
    Inv { s with conn := c' } := by
  have hframe := o.frame hrun
  rcases r with e | a
  · exact h.of_addsBrief (o.run_error hrun ▸ .refl _)
  · refine h.of_conn (h.accepted.of_rules (by rw [hframe]) (by rw [hframe])) fun k j' hj' => ?_
    have hrow := o.rowStep hrun k
    rw [hj'] at hrow
    cases hj : s.conn.db.deliveryJobs.find? k with
    | none =>
      rw [hj] at hrow
      cases hrow with
      | inserted hkind => exact absurd hkind (henqueue _)
    | some j =>
      rw [hj] at hrow
      have hbrief := h.jobs k j hj
      have hexpires : j'.expiresAt = j.expiresAt := hrow.static.2.2.2.2.1
      rw [JobRow.Brief, ← hexpires, ← hrow.createdAt] at hbrief
      exact .inr hbrief

theorem Step.inv (h : Step p s act s') (hok : Allowed s act) (hinv : Inv s) : Inv s' := by
  cases h with
  | plan hresolved =>
    have hdb : _ = s.conn.db := ReadsOnly.resolveEffectiveRule.ok hresolved
    refine ⟨hinv.accepted.of_rules (by rw [hdb]) (by rw [hdb]), fun plan hplan => ?_, ?_⟩
    · rcases List.mem_cons.mp hplan with rfl | hplan
      · exact hinv.accepted.ttl hresolved
      · exact hinv.plans plan hplan
    · rw [hdb]
      exact hinv.jobs
  | live hplan hrun =>
    rename_i r c'
    rcases r with e | r
    · exact hinv.of_addsBrief (immediate_error hrun ▸ .refl _)
    · exact hinv.of_addsBrief (EventPipeline.commitLive_brief (hinv.plans _ hplan) hrun hok).1
  | offline hplan hrun =>
    rename_i r c'
    rcases r with e | r
    · exact hinv.of_addsBrief (immediate_error hrun ▸ .refl _)
    · exact hinv.of_addsBrief (EventPipeline.commitSafe_brief (hinv.plans _ hplan) hrun hok).1
  | write hrun => exact hinv.of_conn (hinv.accepted.run hrun) fun k j hj => .inl (ConfigOp.jobs hrun hj)
  | call henqueue hrun => exact hinv.call henqueue hrun
  | retain hrun =>
    rcases runOnce_run hrun with hdb | ⟨days, -, hprunes⟩
    · exact hinv.of_addsBrief (hdb ▸ .refl _)
    · exact hinv.of_prunes hprunes
  | clear hrun => exact hinv.of_prunes (clearHistory_run hrun)
  | other hjobs hrules => exact hinv.of_conn (hinv.accepted.step hrules) fun k j hj => .inl (hjobs k j hj)

theorem inv (h : Reach Initial (Step p) Allowed s) : Inv s := by
  refine h.invariant (fun s hs => ?_) fun s act s' hinv hstep hok => hstep.inv hok hinv
  refine ⟨hs.accepted, fun plan hplan => ?_, fun k j hj => ?_⟩
  · rw [hs.plans] at hplan
    cases hplan
  · rw [hs.jobs] at hj
    cases hj

/-! ## Active work -/

/-- The time of a step that deletes history. -/
def Act.cleansAt : Act → Option DateTime
  | .retain now | .clear now => some now
  | _ => none

/-- What such a step deletes is neither in `sending` nor active with some time to live. -/
theorem cleans (h : Inv s) (hstep : Step p s act s') (hact : act.cleansAt = some now)
    (hok : Allowed s act) : ∃ P : JobRow → Prop, s.conn.db.Prunes P s'.conn.db ∧
      ∀ k j, s.conn.db.deliveryJobs.find? k = some j → P j →
        j.state ≠ .sending ∧ ¬(j.isActive ∧ now < j.expiresAt) := by
  cases hstep with
  | retain hrun =>
    cases hact
    rcases runOnce_run hrun with hdb | ⟨days, hdays, hprunes⟩
    · exact ⟨fun _ => False, hdb ▸ .refl _, fun _ _ _ => False.elim⟩
    refine ⟨_, hprunes, fun k j hj hold => ⟨fun hsending => ?_, fun ⟨_, hexpires⟩ => ?_⟩⟩
    · exact absurd (hok days hdays k j hj hsending) (Int.not_le.mpr hold)
    · have hpos := Conn.retentionDays_pos hdays
      have hbrief := h.jobs k j hj
      simp only [JobRow.Brief, DateTime, Duration, Duration.days, Duration.seconds] at *
      omega
  | clear hrun =>
    refine ⟨_, clearHistory_run hrun, fun k j hj hterminal => ?_⟩
    have hstate : j.state = .succeeded ∨ j.state = .failed ∨ j.state = .expired := by
      simpa [Database.isTerminal] using hterminal
    unfold JobRow.isActive JobRow.isWaiting
    rcases hstate with hs | hs | hs <;> simp [hs]
  | _ => cases hact

/-- **Active work.** In a run in which the clock does not step back while jobs are queued, a step
that deletes history, and comes when no job in `sending` is older than the retention, keeps the
active jobs that have time to live, the jobs with a live lease, and the events of both; and the
outcome of each job that is being sent can be recorded after it. -/
theorem keeps_active_work (h : Reach Initial (Step p) Allowed s) (hstep : Step p s act s')
    (hact : act.cleansAt = some now) (hok : Allowed s act) :
    (∀ k j, s.conn.db.deliveryJobs.find? k = some j →
      j.isActive ∧ now < j.expiresAt ∨ j.hasLiveLease now →
      s'.conn.db.deliveryJobs.find? k = some j ∧
        s'.conn.db.events.find? j.eventId = s.conn.db.events.find? j.eventId) ∧
    ∀ k, s.conn.db.stateOf k = some .sending → s'.conn.db.CanRecord k := by
  obtain ⟨P, hprunes, hspares⟩ := cleans (inv h) hstep hact hok
  refine ⟨fun k j hj hactive => ?_, fun k hk => ?_⟩
  · have hkept : s'.conn.db.deliveryJobs.find? k = some j := by
      refine hprunes.keeps k j hj fun hP => ?_
      obtain ⟨hsending, hexpires⟩ := hspares k j hj hP
      exact hactive.elim hexpires fun hlive => hsending hlive.1
    exact ⟨hkept, hprunes.parents j (Table.find?_eq_some_iff.mp hkept).1⟩
  · obtain ⟨j, hj, hsending⟩ := Option.map_eq_some_iff.mp hk
    have hkept := hprunes.keeps k j hj fun hP => (hspares k j hj hP).1 hsending
    refine Database.canRecord ?_
    rw [Database.stateOf, hkept, Option.map_some, hsending]

/-- A change of the connection alone is a step. -/
theorem Step.of_db {c' : Conn} (hdb : c'.db = s.conn.db) : Step p s .other { s with conn := c' } :=
  .other (fun _ _ hj => hdb ▸ hj) (.other (fun _ _ hrule => .inl (hdb ▸ hrule)) fun _ _ hrow => hdb ▸ hrow)

theorem Reach.plans {s₁ : Conn} (h : Reach Initial (Step p) Allowed s) (hdecides : Decides p envelope s.conn plan)
    (hdb : s₁.db = s.conn.db) : Reach Initial (Step p) Allowed ⟨s₁, plan :: s.plans⟩ := by
  obtain ⟨capability, cR, cR', cE, cE', n, -, ⟨-, hdbR, hrun⟩, -⟩ := hdecides.reads
  have hread : cR'.db = s.conn.db := (ReadsOnly.resolveEffectiveRule.ok hrun).trans hdbR
  have hplanned : Reach Initial (Step p) Allowed ⟨cR', plan :: s.plans⟩ :=
    (h.next (.of_db hdbR) trivial).next (.plan hrun) trivial
  exact hplanned.next (.of_db (hdb.trans hread.symm)) trivial

/-- The live path plans in steps of a run. -/
theorem Reach.planLive (h : Reach Initial (Step p) Allowed s)
    (hplan : p.planLive request s.conn = (.ok plan, c')) :
    Reach Initial (Step p) Allowed ⟨c', plan :: s.plans⟩ := by
  obtain ⟨_, _, _, _, -, hdecides⟩ := (EventPipeline.planLive_inv hplan).decides
  exact Reach.plans h hdecides (ReadsOnly.planLive.ok hplan)

/-- So does the offline path. -/
theorem Reach.planSafe (h : Reach Initial (Step p) Allowed s)
    (hplan : p.planSafe globalTemplate safe s.conn = (.ok plan, c')) :
    Reach Initial (Step p) Allowed ⟨c', plan :: s.plans⟩ := by
  obtain ⟨_, _, _, hdecides, -⟩ := (EventPipeline.planSafe_inv hplan).decides
  exact Reach.plans h hdecides (ReadsOnly.planSafe.ok hplan)

/-! ## A job that is sent late

A job is claimed for half a minute at noon. The worker stops, and a month later the job is claimed
again. -/

namespace Sample

open CcReminder.Sample

def noon : DateTime := Duration.minutes (12 * 60)

def monthLater : DateTime := noon + Duration.days 31

def start : Housekeeping := ⟨CcReminder.Sample.conn noon, []⟩

theorem start_initial : Initial start where
  accepted := {
    rules := fun key rule hrule => by
      have hmem : rule ∈ start.conn.db.globalRules.rows := (Table.find?_eq_some_iff.mp hrule).1
      rw [List.mem_singleton.mp hmem]
      decide
    patches := fun _ _ hrow => by simp [start, CcReminder.Sample.conn] at hrow }
  jobs := rfl
  plans := rfl

/-- The plan for a turn that ends at noon. -/
def planned : Except AppError Plan × Conn := pipeline.planLive (request noon) start.conn

def committed (plan : Plan) : Except AppError LiveOutcome × Conn :=
  pipeline.commitLive "fingerprint" plan planned.2

def claimed (now : DateTime) (c : Conn) : Except AppError (List ClaimedDelivery) × Conn :=
  claimDue "worker" now (Duration.seconds 30) 8 c

theorem Reach.committed {c : Conn} (h : Reach Initial (Step pipeline) Allowed ⟨c, [plan]⟩)
    (hforward : c.Forward) :
    Reach Initial (Step pipeline) Allowed ⟨(pipeline.commitLive "fingerprint" plan c).2, [plan]⟩ :=
  h.next (.live (List.mem_singleton_self plan) rfl) hforward

theorem step_retain (s : Housekeeping) (now : DateTime) :
    Step pipeline s (.retain now) { s with conn := (runOnce now s.conn).2 } := .retain rfl

theorem Reach.claimed (h : Reach Initial (Step pipeline) Allowed s) (now : DateTime) :
    Reach Initial (Step pipeline) Allowed { s with conn := (claimed now s.conn).2 } :=
  h.next (.call (o := .claimDue "worker" now (Duration.seconds 30) 8) (fun _ => by simp [QueueOp.kind])
    rfl) trivial

/-- The tables after the plan was committed and its job was claimed at the given times. -/
def sentAt (plan : Plan) (times : List DateTime) : Housekeeping :=
  ⟨times.foldl (fun c now => (claimed now c).2) (committed plan).2, [plan]⟩

theorem planned_run (h : planned.1.toOption = some plan) :
    pipeline.planLive (request noon) start.conn = (.ok plan, planned.2) := by
  unfold planned at *
  exact ok_run h

theorem reach_sentAt (h : planned.1.toOption = some plan) (times : List DateTime) :
    Reach Initial (Step pipeline) Allowed (sentAt plan times) := by
  have hplan := planned_run h
  have hforward : Conn.Forward start.conn := fun _ _ _ => Int.le_refl _
  have hplanned : Reach Initial (Step pipeline) Allowed ⟨planned.2, [plan]⟩ :=
    Reach.planLive (.start start_initial) hplan
  have hcommitted : Reach Initial (Step pipeline) Allowed ⟨(committed plan).2, [plan]⟩ :=
    Reach.committed hplanned (hforward.precedes (Advances.planLive.ok hplan))
  unfold sentAt
  generalize (committed plan).2 = c at hcommitted
  induction times generalizing c with
  | nil => exact hcommitted
  | cons now times ih => exact ih _ (Reach.claimed hcommitted now)

def isLive (now : DateTime) (j : JobRow) : Bool :=
  j.state = .sending ∧ j.leaseExpiresAt.any (now < ·)

/-- A job has a live lease, and after a pass there is no job left. -/
def takesAway (plan : Plan) (times : List DateTime) (now : DateTime) : Bool :=
  let s := sentAt plan times
  let c := (runOnce now s.conn).2
  s.conn.db.deliveryJobs.rows.any (isLive now) ∧ c.db.deliveryJobs.rows = [] ∧
    c.db.deliveryAttempts.rows = []

theorem takesAway_run (h : takesAway plan times now) :
    ∃ j ∈ (sentAt plan times).conn.db.deliveryJobs.rows, j.hasLiveLease now ∧
      (runOnce now (sentAt plan times).conn).2.db.deliveryJobs.rows = [] ∧
      (runOnce now (sentAt plan times).conn).2.db.deliveryAttempts.rows = [] := by
  obtain ⟨hlive, hjobs, hattempts⟩ := of_decide_eq_true h
  obtain ⟨j, hj, hisLive⟩ := List.any_eq_true.mp hlive
  obtain ⟨hsending, hlease⟩ := of_decide_eq_true hisLive
  obtain ⟨t, ht, hlt⟩ := (Option.any_eq_true _ _).mp hlease
  exact ⟨j, hj, ⟨hsending, t, ht, of_decide_eq_true hlt⟩, hjobs, hattempts⟩

end Sample

/-- With the default settings a job that is sent a month late is deleted under its worker's hands. -/
theorem sending_deleted : ∃ (p : EventPipeline) (s s' : Housekeeping) (now : DateTime) (k : Uuid)
    (j : JobRow), Reach Initial (Step p) Allowed s ∧ Step p s (.retain now) s' ∧
      s.conn.db.deliveryJobs.find? k = some j ∧ j.hasLiveLease now ∧
      s'.conn.db.deliveryJobs.find? k = none ∧ ¬s'.conn.db.CanRecord k := by
  have hsome : Sample.planned.1.toOption.any fun plan =>
      Sample.takesAway plan [Sample.noon, Sample.monthLater]
        (Sample.monthLater + Duration.seconds 1) := by decide +kernel
  obtain ⟨plan, hplan, htakes⟩ := (Option.any_eq_true _ _).mp hsome
  obtain ⟨j, hj, hlive, hjobs, hattempts⟩ := Sample.takesAway_run htakes
  have hreach := Sample.reach_sentAt hplan [Sample.noon, Sample.monthLater]
  generalize Sample.sentAt plan [Sample.noon, Sample.monthLater] = s at hreach hj hjobs hattempts
  have hstep := Sample.step_retain s (Sample.monthLater + Duration.seconds 1)
  generalize (runOnce _ s.conn).2 = c at hjobs hattempts hstep
  have hnone : c.db.deliveryJobs.find? j.id = none := Table.find?_eq_none_iff.mpr (by simp [hjobs])
  refine ⟨CcReminder.Sample.pipeline, s, _, _, j.id, j, hreach, hstep, Table.mem_rows_iff.mp hj,
    hlive, hnone, ?_⟩
  refine Database.not_canRecord (c := { CcReminder.Sample.conn 0 with db := c.db }) ?_ rfl ?_
  · rw [Database.stateOf, hnone]
    intro h
    cases h
  · exact ⟨fun _ => rfl, fun _ => Table.find?_eq_none_iff.mpr (by simp [hattempts])⟩

/-- A pass a second after the first claim leaves the job to its worker. -/
theorem keeps_active_work_soon : ∃ (s s' : Housekeeping) (k : Uuid),
    Step CcReminder.Sample.pipeline s (.retain (Sample.noon + Duration.seconds 1)) s' ∧
      s.conn.db.stateOf k = some .sending ∧ s'.conn.db.CanRecord k := by
  have hsome : Sample.planned.1.toOption.any fun plan =>
      (Sample.sentAt plan [Sample.noon]).conn.db.deliveryJobs.rows.any fun j =>
        j.state = .sending ∧ j.createdAt = Sample.noon := by decide +kernel
  have honly : Sample.planned.1.toOption.any fun plan =>
      (Sample.sentAt plan [Sample.noon]).conn.db.deliveryJobs.rows.all fun j =>
        j.createdAt = Sample.noon := by decide +kernel
  obtain ⟨plan, hplan, hsending⟩ := (Option.any_eq_true _ _).mp hsome
  obtain ⟨plan', hplan', hall⟩ := (Option.any_eq_true _ _).mp honly
  obtain rfl := Option.some.inj (hplan.symm.trans hplan')
  have hreach := Sample.reach_sentAt hplan [Sample.noon]
  generalize Sample.sentAt plan [Sample.noon] = s at hreach hsending hall
  obtain ⟨j, hj, hstate⟩ := List.any_eq_true.mp hsending
  obtain ⟨hstate, -⟩ := of_decide_eq_true hstate
  have hk : s.conn.db.stateOf j.id = some .sending := by
    rw [Database.stateOf, Table.mem_rows_iff.mp hj, Option.map_some, hstate]
  have hstep := Sample.step_retain s (Sample.noon + Duration.seconds 1)
  refine ⟨s, _, j.id, hstep, hk, (keeps_active_work hreach hstep rfl fun days hdays k j hj _ => ?_).2
    j.id hk⟩
  have hpos := Conn.retentionDays_pos hdays
  have hcreated : j.createdAt = Sample.noon :=
    of_decide_eq_true (List.all_eq_true.mp hall j (Table.find?_eq_some_iff.mp hj).1)
  simp only [hcreated, DateTime, Duration, Duration.days, Duration.seconds]
  omega

end Housekeeping

end CcReminder
