import CcReminder.Storage.Spool.Drains
import CcReminder.Storage.Spool.Interleaved
import CcReminder.Pipeline.Spec

/-!
# Spool safety

In every run, over any number of calls with crashes anywhere, the spool keeps its limit, an accepted
event is in the spool or inserted, and a file goes only when it is settled. A drain that meets a file it
cannot read, and that is still there, rejects it whatever it holds.
-/

set_option autoImplicit true

namespace CcReminder

open Lib Host

namespace SpoolCalls

variable {sv : Services} {foreign : Uuid → Option (List UInt8)} {i : Nat} {id : Uuid}
  {s : SpoolShared}

/-! ## Runs -/

/-- A system of calls on the spool. -/
abbrev System := Threads Nat SpoolOp AppError SpoolShared (List SafeIngressEvent)

/-- A spool within its limit, whose files are events or were no events from the beginning, before any
call. -/
structure Start (sv : Services) (foreign : Uuid → Option (List UInt8)) (calls : Nat → SpoolCall)
    (s : System) : Prop where
  capacity : s.store.host.spool.count ≤ MAX_SPOOL_FILES
  named : ∀ {path f}, path.2 ≠ .tmp → s.store.host.spool.files.find? path = some f →
    Named sv foreign path.1 f.bytes
  rejected : ∀ {name r}, s.store.host.spool.rejected.find? name = some r →
    Spool.parse sv r.bytes = none
  unlinked : ∀ i, s.store.linked i = none
  unlocked : s.store.lock = none
  waiting : ∀ i, s.thread i = some ((calls i).thread sv i)

/-- What a call has brought about where it has ended without an error. -/
def Achieved (calls : Nat → SpoolCall) (i : Nat) (_ : List SafeIngressEvent) (s : SpoolShared) : Prop :=
  match calls i with
  | .write event => Kept s event.eventId
  | .drain _ => True

abbrev Step := Threads.Step (α := List SafeIngressEvent) (ε := AppError) (Λ := SpoolOp)
  SpoolShared.crash SpoolShared.Elsewhere

theorem tolerates : Threads.Tolerates (protocol sv foreign) SpoolShared.crash SpoolShared.Elsewhere := by
  refine ⟨fun i s hinv => owes_lock hinv rfl rfl (fun {j name} hk => ?_) fun j hj => ⟨?_, fun h => ?_⟩,
    fun s s' hinv h => ?_⟩
  · change Function.update s.linked i none j = some name at hk
    by_cases hj : j = i
    · subst hj
      rw [Function.update_self] at hk
      cases hk
    · rwa [Function.update_of_ne hj] at hk
  · exact Function.update_of_ne hj _ _
  · rw [SpoolShared.crash, if_neg]
    · exact h
    · rw [h]
      exact fun heq => hj (Option.some.inj heq)
  · have hquiet := quiet (i := 0) hinv h.spool h.lock h.linked h.inserted
    exact ⟨hquiet.1.inv, hquiet.1.change, hquiet.2⟩

theorem Start.keep {calls : Nat → SpoolCall} {s : System} (h : Start sv foreign calls s)
    (hforeign : ∀ i event, calls i = .write event → foreign event.eventId = none)
    (hserde : ∀ i event, calls i = .write event →
      sv.decodeSafe (sv.encodeSafe event) = some event) :
    Threads.Keep (protocol sv foreign) (Achieved calls) s := by
  refine ⟨⟨h.capacity, h.named, h.rejected, fun {i name} hk => ?_, fun {i j name} hk => ?_⟩,
    fun i x hx => ?_⟩
  · rw [h.unlinked] at hk
    cases hk
  · rw [h.unlinked] at hk
    cases hk
  · cases (h.waiting i).symm.trans hx
    unfold Achieved
    cases hcall : calls i with
    | write event =>
      have hstable : Stable sv foreign i fun s => Kept s event.eventId :=
        stable_kept (hforeign i event hcall)
      exact Thread.Follows.bind (follows_writeExclusive (hforeign i event hcall) (hserde i event hcall))
        fun _ s' _ hkept s'' hrely hinv => hstable s' s'' hkept hrely hinv
    | drain limit => exact (follows_drain limit).mono fun _ _ _ _ => trivial

/-- Drains that nothing disturbs insert the event, when it was not inserted before. -/
def DrainsInsert (sv : Services) (s : SpoolShared) (id : Uuid) : Prop :=
  ∀ (h : Host) (limit n : Nat), h.Quiet → h.spool = s.host.spool →
    h.spool.files.rows.length ≤ MAX_SPOOL_FILES → 0 < limit → h.spool.count ≤ n →
    id ∈ s.inserted ∨ ((Spool.drains sv limit n h).conn.db.ingressEvents.find? id).isSome

theorem Kept.drainsInsert (hinv : Inv sv foreign s) (hforeign : foreign id = none) (h : Kept s id) :
    DrainsInsert sv s id := by
  intro h' limit n hquiet hspool hrows hlimit hn
  rcases h with hholds | hinserted
  · refine .inr ?_
    obtain ⟨path, f, hne, hid, hf⟩ : ∃ path f, path.2 ≠ .tmp ∧ path.1 = id ∧
        s.host.spool.files.find? path = some f := by
      rcases hholds with hjson | hprocessing
      · obtain ⟨f, hf⟩ := Option.isSome_iff_exists.mp hjson
        exact ⟨(id, .json), f, nofun, rfl, hf⟩
      · obtain ⟨f, hf⟩ := Option.isSome_iff_exists.mp hprocessing
        exact ⟨(id, .processing), f, nofun, rfl, hf⟩
    have hnamed := hinv.named hne hf
    rw [Named, hid, hforeign] at hnamed
    obtain ⟨event, hparse, rfl⟩ := hnamed
    exact Spool.drains_event hquiet hlimit hrows hn hne (hspool ▸ hf) hparse
  · exact .inl hinserted

end SpoolCalls

/-- In every run whose steps all count, the spool keeps its limit, nothing that is an event is under
`rejected`, an accepted event is inserted by the drains that follow, and the next step that counts removes
no file that is not settled. -/
theorem spoolSafety {sv : Services} {foreign : Uuid → Option (List UInt8)} {calls : Nat → SpoolCall}
    {s : SpoolCalls.System}
    (hforeign : ∀ i event, calls i = .write event → foreign event.eventId = none)
    (hserde : ∀ i event, calls i = .write event → sv.decodeSafe (sv.encodeSafe event) = some event)
    (h : Reach (SpoolCalls.Start sv foreign calls) SpoolCalls.Step
      (Threads.Counts (SpoolCalls.protocol sv foreign)) s) :
    s.store.host.spool.count ≤ MAX_SPOOL_FILES ∧
    (∀ r ∈ s.store.host.spool.rejected.rows, Spool.parse sv r.bytes = none) ∧
    (∀ i event events, calls i = .write event → s.thread i = some (.done (.ok events)) →
      SpoolCalls.DrainsInsert sv s.store event.eventId) ∧
    ∀ act s', SpoolCalls.Step s act s' → Threads.Counts (SpoolCalls.protocol sv foreign) s act →
      SpoolCalls.Removes sv s.store s'.store := by
  have hkeep : Threads.Keep (SpoolCalls.protocol sv foreign) (SpoolCalls.Achieved calls) s :=
    Threads.follows (fun s hs => hs.keep hforeign hserde) SpoolCalls.tolerates h
  have hinv : SpoolCalls.Inv sv foreign s.store := hkeep.1
  refine ⟨hinv.capacity, fun r hr => hinv.rejected (Table.mem_rows_iff.mp hr),
    fun i event events hcall hended => ?_, fun act s' hstep hok => ?_⟩
  · have hachieved := hkeep.ended hended
    simp only [SpoolCalls.Achieved, hcall] at hachieved
    exact SpoolCalls.Kept.drainsInsert hinv (hforeign i event hcall) hachieved
  · exact (hkeep.step SpoolCalls.tolerates hstep hok).2

/-! ## A read that fails once -/

namespace SpoolCalls.Sample

def event : SafeIngressEvent :=
  normalizeSafeIngress CcReminder.Sample.services (CcReminder.Sample.captured 0) [] .unix none 0

/-- One event has an encoding. -/
def services : Services :=
  { CcReminder.Sample.services with
    encodeSafe := fun _ => [1]
    decodeSafe := fun bytes => if bytes = [1] then some event else none }

/-- A writer and any number of drains. -/
def calls : Nat → SpoolCall
  | 0 => .write event
  | _ => .drain 1

/-- Operations fail as `fault` says. -/
def start (fault : Nat → Bool) : System where
  store := {
    host := { conn := { db := {}, world := fun n => { fault := fault n } } }
    lock := none
    inserted := []
    linked := fun _ => none }
  thread i := some ((calls i).thread services i)

theorem start_start (fault : Nat → Bool) : Start services (fun _ => none) calls (start fault) where
  capacity := Nat.zero_le _
  named _ hf := by cases hf
  rejected hr := by cases hr
  unlinked _ := rfl
  unlocked := rfl
  waiting _ := rfl

/-- The writer has run. -/
def written (fault : Nat → Bool) : System where
  store := (((calls 0).thread services 0).run (start fault).store).2
  thread := Function.update (start fault).thread 0
    (some (.done (((calls 0).thread services 0).run (start fault).store).1))

theorem written_thread {fault : Nat → Bool}
    (h : (((calls 0).thread services 0).run (start fault).store).1 = .ok []) :
    (written fault).thread 0 = some (.done (.ok [])) := by
  simp only [written, Function.update_self, h]

/-- A drain has run after it. -/
def drained (fault : Nat → Bool) : System where
  store := (((calls 1).thread services 1).run (written fault).store).2
  thread := Function.update (written fault).thread 1
    (some (.done (((calls 1).thread services 1).run (written fault).store).1))

theorem reach_written {fault : Nat → Bool} {ok : System → Threads.Act Nat SpoolOp → Prop}
    (hok : ((calls 0).thread services 0).Takes
      (fun store l => ∀ thread, ok ⟨store, thread⟩ (.run 0 l)) (start fault).store) :
    Reach (Start services (fun _ => none) calls) Step ok (written fault) :=
  Threads.run_alone (.start (start_start fault)) rfl hok

theorem reach_drained {fault : Nat → Bool} : Reach (Start services (fun _ => none) calls) Step
    (fun _ _ => True) (drained fault) :=
  Threads.run_alone (reach_written (Thread.Takes.all fun _ _ _ => trivial)) rfl
    (Thread.Takes.all fun _ _ _ => trivial)

/-- There is room, and nothing is rejected. -/
def Plain (s : SpoolShared) : SpoolOp → Prop
  | .step => True
  | .check _ => s.host.spool.count < MAX_SPOOL_FILES
  | .link _ _ => False

instance (s : SpoolShared) : ∀ op, Decidable (Plain s op)
  | .step => isTrue trivial
  | .check _ => inferInstanceAs (Decidable (_ < _))
  | .link _ _ => isFalse id

theorem Plain.counted {s : SpoolShared} {op : SpoolOp} (h : Plain s op) : Counted s op := by
  cases op with
  | step => trivial
  | check before => exact .inl h
  | link id wasRead => cases h

theorem reach_counted : Reach (Start services (fun _ => none) calls) Step
    (Threads.Counts (protocol services fun _ => none)) (written fun _ => false) := by
  have hplain : ((calls 0).thread services 0).Takes Plain (start fun _ => false).store := by
    decide +kernel
  exact reach_written (hplain.mono fun _ _ h _ => h.counted)

theorem drained_thread {fault : Nat → Bool} : (drained fault).thread 0 = (written fault).thread 0 := by
  simp only [drained]
  exact Function.update_of_ne Nat.zero_ne_one _ _

end SpoolCalls.Sample

section

open SpoolCalls SpoolCalls.Sample

/-- A writer is accepted, and the drains that follow insert its event. -/
theorem spoolSafety_written :
    (SpoolCalls.Sample.written fun _ => false).thread 0 = some (.done (.ok [])) ∧
      DrainsInsert services (SpoolCalls.Sample.written fun _ => false).store event.eventId := by
  have hthread : (SpoolCalls.Sample.written fun _ => false).thread 0 = some (.done (.ok [])) :=
    written_thread (by decide +kernel)
  have hserde : ∀ i event, calls i = .write event →
      services.decodeSafe (services.encodeSafe event) = some event := by
    intro i event hcall
    cases i with
    | zero => cases hcall; rfl
    | succ i => cases hcall
  obtain ⟨-, -, haccepted, -⟩ := spoolSafety (fun _ _ _ => rfl) hserde reach_counted
  exact ⟨hthread, haccepted 0 _ [] rfl hthread⟩

/-- The drain cannot read the file of an event that was accepted: it rejects it, and then the event is
neither in the spool nor inserted. -/
theorem spoolSafety_unread : ∃ s, Reach (Start services (fun _ => none) calls) Step
      (fun _ _ => True) s ∧
    s.thread 0 = some (.done (.ok [])) ∧
    (∃ r ∈ s.store.host.spool.rejected.rows, Spool.parse services r.bytes = some event) ∧
    ¬ DrainsInsert services s.store event.eventId := by
  refine ⟨drained fun n => n = 12, reach_drained, ?_, ?_, fun h => ?_⟩
  · exact drained_thread.trans (written_thread (by decide +kernel))
  · decide +kernel
  · have hlater := h { conn := { db := {}, world := fun _ => {} }
                       spool := (drained fun n => n = 12).store.host.spool } 1 1
      (fun _ => rfl) rfl (by decide +kernel) Nat.one_pos (by decide +kernel)
    revert hlater
    decide +kernel

end

end CcReminder
