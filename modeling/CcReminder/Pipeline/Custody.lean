import CcReminder.Pipeline.Intake

/-!
# Custody of accepted events

An event that waits in `ingress_events` or in the spool is held. Every step passes it on: a drain
inserts it before it removes its file, and the offline path removes its row in the transaction that
records it. The exceptions are the deletions of history. They take `processing` to mean that a row
was processed, but a row that is being processed, or whose processing failed, is in `processing` too.
-/

set_option autoImplicit true

namespace CcReminder

open Lib Host

namespace Intake

variable {id : Uuid}

/-- The event waits in `ingress_events` or in the spool. -/
def Held (s : Intake) (id : Uuid) : Prop :=
  (s.db.ingressEvents.find? id).isSome ∨ s.host.spool.Holds id

instance (s : Intake) (id : Uuid) : Decidable (s.Held id) := inferInstanceAs (Decidable (_ ∨ _))

/-- The steps that lose nothing: a deletion of history finds no row in `processing` that it would
delete and whose event is not recorded, an event that is written to the spool can be read back, and
reading a file of the spool does not fail. -/
def Spared (p : EventPipeline) (s : Intake) : Act → Prop
  | .write safe => p.sv.decodeSafe (p.sv.encodeSafe safe) = some safe
  | .ingest _ => (s.host.conn.world 0).fault = false
  | .retain cutoff => ∀ k r, s.db.ingressEvents.find? k = some r → r.state = .processing →
    r.receivedAt < cutoff → k ∈ s.recorded
  | .clear => ∀ k r, s.db.ingressEvents.find? k = some r → r.state = .processing → k ∈ s.recorded
  | _ => True

/-! ## One step -/

structure Kept (sv : Services) (s : Intake) : Prop where
  intact : s.host.spool.Intact sv
  inserted : ∀ id, s.inserted = some id → (s.db.ingressEvents.find? id).isSome ∨ id ∈ s.recorded
  recorded : ∀ id, (s.db.events.find? id).isSome → id ∈ s.recorded

/-- What one step makes of the events that are held. -/
structure Passes (s s' : Intake) : Prop where
  ingress : ∀ id, (s.db.ingressEvents.find? id).isSome →
    (s'.db.ingressEvents.find? id).isSome ∨ id ∈ s'.recorded
  spool : ∀ id, s.host.spool.Holds id → s'.Held id ∨ id ∈ s'.recorded
  recorded : ∀ id ∈ s.recorded, id ∈ s'.recorded

theorem Passes.held {s s' : Intake} (h : Passes s s') (hs : s.Held id ∨ id ∈ s.recorded) :
    s'.Held id ∨ id ∈ s'.recorded := by
  rcases hs with (hs | hs) | hs
  · exact (h.ingress id hs).imp_left .inl
  · exact h.spool id hs
  · exact .inr (h.recorded id hs)

theorem mem_recorded {s : Intake} {host : Host} (h : id ∈ s.recorded) :
    id ∈ (s.onHost host).recorded := List.mem_append_left _ h

/-- After each step the events in the table are recorded. -/
theorem Kept.events {sv : Services} {s : Intake} {host : Host} (h : Kept sv s)
    (hid : (host.conn.db.events.find? id).isSome) : id ∈ (s.onHost host).recorded := by
  cases hfind : s.db.events.find? id with
  | some r => exact mem_recorded (h.recorded id (by rw [hfind]; rfl))
  | none => exact List.mem_append_right _ (mem_newEvents.mpr ⟨hid, hfind⟩)

theorem Kept.onHost {sv : Services} {s : Intake} {host : Host} (h : Kept sv s)
    (hintact : host.spool.Intact sv)
    (hingress : ∀ id, (s.db.ingressEvents.find? id).isSome →
      (host.conn.db.ingressEvents.find? id).isSome ∨ id ∈ (s.onHost host).recorded)
    (hspool : ∀ id, s.host.spool.Holds id →
      (s.onHost host).Held id ∨ id ∈ (s.onHost host).recorded) :
    Kept sv (s.onHost host) ∧ Passes s (s.onHost host) := by
  refine ⟨⟨hintact, fun id hid => ?_, fun id => h.events⟩, hingress, hspool, fun id => mem_recorded⟩
  rcases h.inserted id hid with hid | hid
  · exact hingress id hid
  · exact .inr (mem_recorded hid)

/-- A step on the database alone. -/
theorem Kept.onConn {sv : Services} {s : Intake} {c' : Conn} (h : Kept sv s)
    (hingress : ∀ id, (s.db.ingressEvents.find? id).isSome →
      (c'.db.ingressEvents.find? id).isSome ∨ id ∈ (s.onConn c').recorded) :
    Kept sv (s.onConn c') ∧ Passes s (s.onConn c') :=
  h.onHost h.intact hingress fun _ hid => .inl (.inr hid)

/-- A step that takes no row of `ingress_events` away. -/
theorem Kept.onConn_of_isSome {sv : Services} {s : Intake} {c' : Conn} (h : Kept sv s)
    (hingress : ∀ id, (s.db.ingressEvents.find? id).isSome → (c'.db.ingressEvents.find? id).isSome) :
    Kept sv (s.onConn c') ∧ Passes s (s.onConn c') := h.onConn fun id hid => .inl (hingress id hid)

/-- A step on the spool alone that keeps its files, whatever it makes of the drain's memory. -/
theorem Kept.onSpool {sv : Services} {s : Intake} {host : Host} (h : Kept sv s)
    (hdb : host.conn.db.ingressEvents = s.db.ingressEvents) (hintact : host.spool.Intact sv)
    (hholds : ∀ id, s.host.spool.Holds id → host.spool.Holds id) :
    Kept sv (s.onHost host) ∧ Passes s (s.onHost host) :=
  h.onHost hintact (fun id hid => .inl (by rw [hdb]; exact hid)) fun id hid =>
    .inl (.inr (hholds id hid))

/-- The drain remembers an event only when it is safe elsewhere. -/
theorem Kept.remember {sv : Services} {s s' : Intake} {inserted : Option Uuid}
    (h : Kept sv s' ∧ Passes s s') (hinserted : ∀ id, inserted = some id →
      (s'.db.ingressEvents.find? id).isSome ∨ id ∈ s'.recorded) :
    Kept sv { s' with inserted } ∧ Passes s { s' with inserted } :=
  ⟨⟨h.1.intact, hinserted, h.1.recorded⟩, ⟨h.2.ingress, h.2.spool, h.2.recorded⟩⟩

/-- A transaction that removes the row of one event, which is recorded by then. -/
theorem Kept.onConn_of_delete {sv : Services} {s : Intake} {c' : Conn} {e : Uuid} (h : Kept sv s)
    (hdb : c'.db.ingressEvents = s.db.ingressEvents.delete (·.id = e))
    (he : (c'.db.events.find? e).isSome) : Kept sv (s.onConn c') ∧ Passes s (s.onConn c') := by
  have hrecorded : e ∈ (s.onConn c').recorded := h.events he
  refine h.onConn fun id hid => ?_
  by_cases hne : id = e
  · exact .inr (hne ▸ hrecorded)
  · left
    obtain ⟨r, hr⟩ := Option.isSome_iff_exists.mp hid
    have hrid : r.id = id := Table.find?_key hr
    rw [hdb, Table.find?_delete, hr, Option.filter_some, if_pos (by simpa [hrid] using hne)]
    rfl

/-- A deletion of history that keeps the rows that it does not take for processed. -/
theorem Kept.of_keepsIngress {sv : Services} {s : Intake} {c' : Conn} {P : IngressRow → Prop}
    (h : Kept sv s) (hkeeps : s.db.KeepsIngress P c'.db)
    (hrest : ∀ k r, s.db.ingressEvents.find? k = some r → ¬P r → k ∈ s.recorded) :
    Kept sv (s.onConn c') ∧ Passes s (s.onConn c') := by
  refine h.onConn fun id hid => ?_
  obtain ⟨r, hr⟩ := Option.isSome_iff_exists.mp hid
  by_cases hp : P r
  · exact .inl (by rw [hkeeps id r hr hp]; rfl)
  · exact .inr (mem_recorded (hrest id r hr hp))

theorem Step.keeps {p : EventPipeline} {s s' : Intake} (h : Step p s act s')
    (hok : Spared p s act) (hs : Kept p.sv s) : Kept p.sv s' ∧ Passes s s' := by
  cases h with
  | @live _ _ _ _ _ run _ hplan hrun =>
    obtain ⟨result, c'⟩ := run
    refine hs.onConn_of_isSome fun id hid => ?_
    cases EventPipeline.commitLive_run hrun with
    | error hdb => exact hdb ▸ hid
    | duplicate _ hdb => exact hdb ▸ hid
    | processed _ _ hingress => exact hingress ▸ hid
  | @offline _ _ _ plan _ run hplan hrun =>
    obtain ⟨result, c'⟩ := run
    cases EventPipeline.commitSafe_run hrun with
    | error hdb => exact hs.onConn_of_isSome fun id hid => hdb ▸ hid
    | duplicate hseen hdb => exact hs.onConn_of_delete (by rw [hdb]; rfl) (by rw [hdb]; exact hseen)
    | processed _ hrec hingress => exact hs.onConn_of_delete hingress (Plan.Recorded.event_isSome hrec)
  | @insert safe run hrun =>
    obtain ⟨result, c'⟩ := run
    refine hs.onConn_of_isSome fun id hid => ?_
    rcases HookCommand.insertIngress_run hrun with ⟨-, hdb⟩ | ⟨-, hdb⟩
    · rw [hdb, Database.find?_insertIngress, hid]
      rfl
    · exact hdb ▸ hid
  | @write safe run hrun =>
    obtain ⟨result, h'⟩ := run
    rcases Spool.writeExclusive_run hrun with ⟨hpub, -⟩ | ⟨hsame, -⟩
    · exact hs.onSpool (by rw [hpub.db]) (hpub.intact hok hs.intact) fun _ => hpub.holds
    · exact hs.onSpool (by rw [hsame.1]) (hsame.2.intact hs.intact) fun _ => hsame.2.holds
  | @claim path run hrun =>
    obtain ⟨result, h'⟩ := run
    obtain ⟨hdb, hholds, hintact⟩ := Spool.claim_run hrun
    exact hs.onSpool (by rw [hdb]) (hintact _ hs.intact) hholds
  | @ingest e run hrun =>
    obtain ⟨result, h'⟩ := run
    cases Spool.ingest_run hrun with
    | @inserted event hid hdb hspool =>
      obtain rfl := hid hs.intact
      have hfind : ∀ k, (h'.conn.db.ingressEvents.find? k).isSome =
          ((s.db.ingressEvents.find? k).isSome || decide (k = event.eventId)) := fun k => by
        rw [hdb, Database.find?_insertIngress]
      refine Kept.remember (hs.onHost (hspool ▸ hs.intact) (fun k hk => .inl ?_) fun k hk =>
        .inl (.inr ?_)) fun k hk => .inl ?_
      · rw [hfind, hk]
        rfl
      · exact hspool ▸ hk
      · obtain rfl := Option.some.inj hk
        exact (hfind _).trans (by simp)
    | failed hsame =>
      exact Kept.remember (hs.onSpool (by rw [hsame.1]) (hsame.2.intact hs.intact) fun _ =>
        hsame.2.holds) fun _ hk => by cases hk
    | rejected hr hdrops hread =>
      refine Kept.remember (hs.onSpool (by rw [hdrops.1]) (hdrops.intact hs.intact) fun k hk => ?_)
        fun k hk => ?_
      · by_cases hne : k = e
        · subst hne
          -- there was no claimed file to reject
          have hnone := hread hok hs.intact
          rcases hk with hk | hk
          · left
            rcases hdrops.2 (k, .json) (by simp) with h | ⟨h, -⟩
            · rwa [h]
            · cases h
          · rw [hnone] at hk
            cases hk
        · exact hdrops.holds hne hk
      · cases result with
        | error => cases hk
        | ok r =>
          cases r with
          | none => cases hk
          | some event => exact absurd rfl (hr event)
  | @unlink e run hinserted hrun =>
    obtain ⟨result, h'⟩ := run
    have hdrops : Spool.Drops e s.host h' := Spool.Drops.remove.ok hrun
    refine Kept.remember (hs.onHost (hdrops.intact hs.intact) (fun k hk => .inl ?_) fun k hk => ?_)
      fun _ hk => by cases hk
    · rw [hdrops.1]
      exact hk
    · by_cases hne : k = e
      · subst hne
        rcases hs.inserted k hinserted with hk | hk
        · exact .inl (.inl (show (h'.conn.db.ingressEvents.find? k).isSome by rw [hdrops.1]; exact hk))
        · exact .inr (mem_recorded hk)
      · exact .inl (.inr (hdrops.holds hne hk))
  | @take _ run hrun =>
    exact hs.onConn_of_isSome fun k hk => by rw [(takeIngressBatch_run hrun).2]; exact hk
  | @recoverStale run hrun =>
    exact hs.onConn_of_isSome fun k hk => by rw [(recoverStaleIngress_run hrun).2]; exact hk
  | @retain cutoff run hrun =>
    obtain ⟨result, c'⟩ := run
    cases result with
    | error e => exact hs.onConn_of_isSome fun k hk => by rw [deleteExpired_error hrun]; exact hk
    | ok stats =>
      refine hs.of_keepsIngress (ensures_deleteExpired hrun) fun k r hr hp => ?_
      rw [not_or, Int.not_le] at hp
      have hstate : r.state = .processing := by
        cases h : r.state
        · exact absurd h hp.1
        · rfl
      exact hok k r hr hstate hp.2
  | @clear run hrun =>
    obtain ⟨result, c'⟩ := run
    cases result with
    | error e => exact hs.onConn_of_isSome fun k hk => by rw [clearHistory_error hrun]; exact hk
    | ok n =>
      refine hs.of_keepsIngress (ensures_clearHistory hrun) fun k r hr hp => hok k r hr ?_
      cases h : r.state
      · exact absurd h hp
      · rfl
  | crash hsame =>
    exact Kept.remember (hs.onSpool (by rw [hsame.1]) (hsame.2.intact hs.intact) fun _ =>
      hsame.2.holds) fun _ hk => by cases hk
  | other hdb hfiles =>
    exact hs.onSpool hdb.ingress (hfiles.intact hs.intact) fun _ => hfiles.holds

/-! ## Runs -/

theorem Initial.kept {sv : Services} {s : Intake} (h : Initial s) : Kept sv s := by
  refine ⟨fun path f _ hf => ?_, fun id hid => ?_, fun id hid => ?_⟩
  · simp [h.files] at hf
  · simp [h.inserted] at hid
  · simp [h.events] at hid

theorem Reach.kept {p : EventPipeline} (h : Reach Initial (Step p) (Spared p) s) : Kept p.sv s :=
  h.invariant (P := Kept p.sv) (fun _ => Initial.kept) fun _ _ _ ih hstep hok =>
    (hstep.keeps hok ih).1

/-- **Nothing is lost.** In every run whose steps all lose nothing, an event that is held at one point
is held or recorded at every later point, and no row of `ingress_events` is removed before its event
is recorded. -/
theorem held_or_recorded {p : EventPipeline} (h : Reach Initial (Step p) (Spared p) s) :
    (∀ id, s.Held id → ∀ s', Reach (· = s) (Step p) (Spared p) s' →
      s'.Held id ∨ id ∈ s'.recorded) ∧
    ∀ act s', Step p s act s' → Spared p s act → ∀ id, (s.db.ingressEvents.find? id).isSome →
      (s'.db.ingressEvents.find? id).isSome ∨ id ∈ s'.recorded := by
  have hs : Kept p.sv s := Reach.kept h
  refine ⟨fun id hid s' hrun => ?_, fun act s' hstep hok id hid =>
    (hstep.keeps hok hs).2.ingress id hid⟩
  have hlater : Kept p.sv s' ∧ (s'.Held id ∨ id ∈ s'.recorded) :=
    hrun.invariant (P := fun s' => Kept p.sv s' ∧ (s'.Held id ∨ id ∈ s'.recorded))
      (by rintro _ rfl; exact ⟨hs, .inl hid⟩) fun _ _ _ ih hstep hok =>
        ⟨(hstep.keeps hok ih.1).1, (hstep.keeps hok ih.1).2.held ih.2⟩
  exact hlater.2

/-! ## A row in `processing`

The helper inserts the event, the application takes it, and the user clears the history. -/

def insertion : Except String Unit × Conn :=
  HookCommand.insertIngress Sample.services stopped start.host.conn

def taking : Except AppError (List SafeIngressEvent) × Conn := takeIngressBatch 50 insertion.2

def recording : Except AppError Unit × Conn :=
  Sample.pipeline.commitSafe (Option.get _ plannedSafe) taking.2

/-- The event waits, and then it is taken. -/
def waiting : Intake := start.onConn insertion.2
def processing : Intake := waiting.onConn taking.2

theorem reach_waiting {ok : Intake → Act → Prop} (hok : ok start (.insert stopped)) :
    Reach Initial (Step Sample.pipeline) ok waiting :=
  have hstep : Step Sample.pipeline start (.insert stopped) waiting := .insert (by rw [insertion]; rfl)
  (Reach.start initial_start).next hstep hok

theorem reach_processing {ok : Intake → Act → Prop} (hok : ok waiting .take) :
    Reach (· = waiting) (Step Sample.pipeline) ok processing :=
  have hstep : Step Sample.pipeline waiting .take processing :=
    .take (by rw [waiting, onConn, onHost, taking])
  .next (.start rfl) hstep hok

/-- The history is cleared when the application has recorded the event. -/
def clearedLate : Intake := (processing.onConn recording.2).onConn (clearHistory recording.2).2

theorem held_or_recorded_late : waiting.Held stopped.eventId ∧ clearedLate.db.ingressEvents.rows = [] ∧
    (clearedLate.Held stopped.eventId ∨ stopped.eventId ∈ clearedLate.recorded) := by
  obtain ⟨c, hsafe⟩ := run_get plannedSafe
  have hrecord : Step Sample.pipeline processing (.offline stopped) (processing.onConn recording.2) :=
    .offline hsafe (by rw [processing, onConn, onHost, recording])
  have hclear : Step Sample.pipeline (processing.onConn recording.2) .clear clearedLate :=
    .clear (by rw [onConn, onHost])
  have hrows : (processing.onConn recording.2).db.ingressEvents.rows = [] := by decide +kernel
  have hspared : Spared Sample.pipeline (processing.onConn recording.2) .clear := by
    intro k r hr
    have := (Table.find?_eq_some_iff.mp hr).1
    rw [hrows] at this
    cases this
  have hheld : waiting.Held stopped.eventId := by decide +kernel
  refine ⟨hheld, by decide +kernel, ?_⟩
  exact (held_or_recorded (reach_waiting trivial)).1 _ hheld _
    (((reach_processing trivial).next hrecord trivial).next hclear hspared)

/-- The history is cleared first, and then the application stops. -/
def clearedEarly : Intake :=
  { (processing.onConn (clearHistory taking.2).2).onHost
      (processing.onConn (clearHistory taking.2).2).host with inserted := none }

theorem lost_early : ∃ s s' : Intake, Reach Initial (Step Sample.pipeline) (fun _ _ => True) s ∧
    s.Held stopped.eventId ∧ Reach (· = s) (Step Sample.pipeline) (fun _ _ => True) s' ∧
    ¬(s'.Held stopped.eventId ∨ stopped.eventId ∈ s'.recorded) := by
  have hclear : Step Sample.pipeline processing .clear
      (processing.onConn (clearHistory taking.2).2) :=
    .clear (by rw [processing, onConn, onHost])
  have hcrash : Step Sample.pipeline (processing.onConn (clearHistory taking.2).2) .crash
      clearedEarly := .crash (.refl _)
  exact ⟨waiting, clearedEarly, reach_waiting trivial, by decide +kernel,
    ((reach_processing trivial).next hclear trivial).next hcrash trivial, by decide +kernel⟩

end Intake

end CcReminder
