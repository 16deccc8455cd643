import CcReminder.Ipc
import CcReminder.Pipeline.Custody

/-!
# The hand-over of an event

A helper offers its event to the application, and keeps the safe part of it when it gets no `Accepted` in
time. The two sides do not wait for each other: a helper that has given up may find its request recorded
later, and the reply to a request that was recorded may get lost. In every run a helper that ends without
an error leaves its event recorded, in `ingress_events` or in the spool, and what is answered with
`Accepted` has been recorded.
-/

set_option autoImplicit true

namespace CcReminder

open Lib Host

/-- A helper that has captured an event. -/
structure HookRun where
  captured : CapturedHookEvent
  context : HookCommand.Context
  commandFingerprint : String

namespace HookRun

def request (run : HookRun) : IngressRequest :=
  HookCommand.request run.commandFingerprint run.captured

def eventId (sv : Services) (run : HookRun) : Uuid := stableIngressEventId sv run.captured

def safe (sv : Services) (run : HookRun) (receivedAt : DateTime) : SafeIngressEvent :=
  normalizeSafeIngress sv run.captured run.context.projects run.context.platform
    run.context.correlationKey receivedAt

end HookRun

/-- How far a helper is. -/
inductive HelperPhase where
  | captured
  | offering (safe : SafeIngressEvent)
  | waiting (safe : SafeIngressEvent)
  | keeping (safe : SafeIngressEvent)
  | spooling (safe : SafeIngressEvent)
  | ended (result : Except String Unit)

/-- The connection of a helper. -/
inductive StreamPhase where
  | idle
  | sent (bytes : List UInt8)
  | queued
  | replied (response : IngressResponse)
  | closed

structure HandOff where
  intake : Intake
  helper : Nat → HelperPhase
  stream : Nat → StreamPhase
  /-- The requests that wait for the accept loop. -/
  queue : List (Nat × IngressRequest)

namespace HandOff

def setHelper (s : HandOff) (i : Nat) (phase : HelperPhase) : HandOff :=
  { s with helper := Function.update s.helper i phase }

def setStream (s : HandOff) (i : Nat) (phase : StreamPhase) : HandOff :=
  { s with stream := Function.update s.stream i phase }

/-- A reply that nobody waits for is dropped. -/
def answer (s : HandOff) (i : Nat) (response : IngressResponse) : HandOff :=
  match s.stream i with
  | .queued => s.setStream i (.replied response)
  | _ => s

inductive Act where
  | helper (i : Nat)
  | server (i : Nat)
  | elsewhere (act : Intake.Act)
  | restart

/-- What comes of a normalised event, of a reply, and of an insert. -/
def afterNormalize (sv : Services) (safe : SafeIngressEvent) : HelperPhase :=
  match HookCommand.validateSafeEnvelope sv safe with
  | .ok _ => .offering safe
  | .error e => .ended (.error e)

def afterReply (safe : SafeIngressEvent) : IngressResponse → HelperPhase
  | .accepted _ => .ended (.ok ())
  | .rejected _ => .keeping safe

def afterInsert (safe : SafeIngressEvent) : Except String Unit → HelperPhase
  | .ok () => .ended (.ok ())
  | .error _ => .spooling safe

inductive Step (p : EventPipeline) (runs : Nat → HookRun) (s : HandOff) : Act → HandOff → Prop
  | normalize (h : s.helper i = .captured) :
    Step p runs s (.helper i) (s.setHelper i (afterNormalize p.sv ((runs i).safe p.sv receivedAt)))
  | send (h : s.helper i = .offering safe)
    (hsize : (p.sv.encodeRequest (runs i).request).length ≤ MAX_HOOK_BYTES) :
    Step p runs s (.helper i)
      ((s.setHelper i (.waiting safe)).setStream i (.sent (p.sv.encodeRequest (runs i).request)))
  /-- Nothing can be sent, no reply comes in time, or it comes in part. -/
  | giveUp (h : s.helper i = .offering safe ∨ s.helper i = .waiting safe) :
    Step p runs s (.helper i) (s.setHelper i (.keeping safe))
  | receive (h : s.helper i = .waiting safe) (hreply : s.stream i = .replied response) :
    Step p runs s (.helper i) ((s.setHelper i (afterReply safe response)).setStream i .closed)
  | insert {run : Except String Unit × Conn} (h : s.helper i = .keeping safe)
    (hrun : HookCommand.insertIngress p.sv safe s.intake.host.conn = run) :
    Step p runs s (.helper i)
      ({ s with intake := s.intake.onConn run.2 }.setHelper i (afterInsert safe run.1))
  | spool {run : Except String Unit × Host} (h : s.helper i = .spooling safe)
    (hrun : HookCommand.spoolIngress p.sv safe s.intake.host = run) :
    Step p runs s (.helper i)
      ({ s with intake := s.intake.onHost run.2 }.setHelper i (.ended run.1))
  | invalid (h : s.stream i = .sent bytes) (hparse : IpcServer.parseRequest p.sv bytes = .error response) :
    Step p runs s (.server i) (s.setStream i (.replied response))
  | queue (h : s.stream i = .sent bytes) (hparse : IpcServer.parseRequest p.sv bytes = .ok request)
    (hroom : s.queue.length < IPC_CHANNEL_CAPACITY) :
    Step p runs s (.server i)
      ({ s with queue := s.queue ++ [(i, request)] }.setStream i .queued)
  | busy (h : s.stream i = .sent bytes) :
    Step p runs s (.server i) (s.setStream i (.replied (.rejected "ipc_busy")))
  /-- The connection has waited for too long, or the accept loop has ended. -/
  | late (h : s.stream i = .queued) (hcode : code ∈ ["ingress_timeout", "ingress_unavailable"]) :
    Step p runs s (.server i) (s.setStream i (.replied (.rejected code)))
  /-- The connection breaks, or the frame is too large. -/
  | close : Step p runs s (.server i) (s.setStream i .closed)
  /-- The accept loop processes a request and replies. A panic after the transaction is a rejection. -/
  | serve {run : Except AppError LiveOutcome × Conn} {rest : List (Nat × IngressRequest)}
    (hqueue : s.queue = (i, request) :: rest)
    (hplan : p.planLive request c₀ = (.ok plan, c₁))
    (hrun : p.commitLive request.commandFingerprint plan s.intake.host.conn = run)
    (hreply : response = IpcServer.replyTo run.1 ∨ response = .rejected "unrecognized") :
    Step p runs s (.server i)
      ({ s with intake := s.intake.onConn run.2, queue := rest }.answer i response)
  /-- The event cannot be planned, or the handler panics and its transaction is rolled back. -/
  | refuse {rest : List (Nat × IngressRequest)} (hqueue : s.queue = (i, request) :: rest) :
    Step p runs s (.server i) ({ s with queue := rest }.answer i (.rejected "unrecognized"))
  | elsewhere {intake' : Intake} (hstep : Intake.Step p s.intake act intake') :
    Step p runs s (.elsewhere act) { s with intake := intake' }
  /-- The application stops: its connections break. -/
  | restart : Step p runs s .restart { s with stream := fun _ => .closed, queue := [] }

structure Initial (s : HandOff) : Prop where
  recorded : ∀ id, id ∈ s.intake.recorded ↔ (s.intake.db.events.find? id).isSome
  helper : ∀ i, s.helper i = .captured
  stream : ∀ i, s.stream i = .idle
  queue : s.queue = []

/-! ## The invariant -/

/-- The event of a helper goes on under its identifier. -/
def Carries (id : Uuid) : HelperPhase → Prop
  | .offering safe | .waiting safe | .keeping safe | .spooling safe => safe.eventId = id
  | _ => True

/-- What is sent is the request, and only what is recorded is accepted. -/
def Honest (sv : Services) (run : HookRun) (recorded : List Uuid) : StreamPhase → Prop
  | .sent bytes => bytes = sv.encodeRequest run.request
  | .replied (.accepted id) => id = run.eventId sv ∧ id ∈ recorded
  | _ => True

structure Inv (p : EventPipeline) (runs : Nat → HookRun) (s : HandOff) : Prop where
  recorded : ∀ id, (s.intake.db.events.find? id).isSome → id ∈ s.intake.recorded
  helper : ∀ i, Carries ((runs i).eventId p.sv) (s.helper i)
  stream : ∀ i, Honest p.sv (runs i) s.intake.recorded (s.stream i)
  queue : ∀ i request, (i, request) ∈ s.queue → request = (runs i).request

namespace Inv

variable {p : EventPipeline} {runs : Nat → HookRun} {s : HandOff} {i : Nat}

theorem setHelper (h : Inv p runs s) (hphase : Carries ((runs i).eventId p.sv) phase) :
    Inv p runs (s.setHelper i phase) where
  recorded := h.recorded
  helper j := by
    by_cases hj : j = i
    · subst hj
      simpa [HandOff.setHelper] using hphase
    · simpa [HandOff.setHelper, hj] using h.helper j
  stream := h.stream
  queue := h.queue

theorem setStream (h : Inv p runs s) (hphase : Honest p.sv (runs i) s.intake.recorded phase) :
    Inv p runs (s.setStream i phase) where
  recorded := h.recorded
  helper := h.helper
  stream j := by
    by_cases hj : j = i
    · subst hj
      simpa [HandOff.setStream] using hphase
    · simpa [HandOff.setStream, hj] using h.stream j
  queue := h.queue

theorem answer (h : Inv p runs s)
    (hresponse : Honest p.sv (runs i) s.intake.recorded (.replied response)) :
    Inv p runs (s.answer i response) := by
  unfold HandOff.answer
  split
  · exact h.setStream hresponse
  · exact h

/-- The tables go on, and what is added to the events is recorded. -/
theorem onHost (h : Inv p runs s) (host : Host) : Inv p runs { s with intake := s.intake.onHost host } where
  recorded id hid := by
    cases hfind : s.intake.db.events.find? id with
    | some r => exact Intake.mem_recorded (h.recorded id (by rw [hfind]; rfl))
    | none => exact List.mem_append_right _ (Intake.mem_newEvents.mpr ⟨hid, hfind⟩)
  helper := h.helper
  stream j := by
    have hj := h.stream j
    cases hphase : s.stream j with
    | sent bytes =>
      rw [hphase] at hj
      exact hj
    | replied response =>
      rw [hphase] at hj
      cases response with
      | accepted id => exact ⟨hj.1, Intake.mem_recorded hj.2⟩
      | rejected code => trivial
    | idle | queued | closed => trivial
  queue := h.queue

theorem drop {rest : List (Nat × IngressRequest)} (h : Inv p runs s) (hqueue : s.queue = e :: rest) :
    Inv p runs { s with queue := rest } :=
  ⟨h.recorded, h.helper, h.stream, fun i request hmem =>
    h.queue i request (hqueue ▸ List.mem_cons_of_mem _ hmem)⟩

end Inv

/-- A step of the intake goes on with another machine. -/
theorem Intake.Step.eq_onHost {s' : Intake} (h : Intake.Step p s act s') :
    ∃ host inserted, s' = { s.onHost host with inserted } := by
  cases h with
  | ingest | unlink | crash => exact ⟨_, _, rfl⟩
  | live | offline | insert | write | claim | take | recoverStale | retain | clear | other =>
    exact ⟨_, s.inserted, rfl⟩

theorem parseRequest_error (h : IpcServer.parseRequest sv bytes = .error response) :
    response = .rejected "invalid_request" := by
  unfold IpcServer.parseRequest at h
  split at h
  · cases h
    rfl
  · split at h
    · cases h
      rfl
    · cases h

/-- What a processed request is accepted with is the identifier of its event, which is recorded. -/
theorem replyTo_honest {p : EventPipeline} {runs : Nat → HookRun} {intake : Intake}
    {run : Except AppError LiveOutcome × Conn}
    (hrecorded : ∀ id, (intake.db.events.find? id).isSome → id ∈ intake.recorded)
    (hplan : p.planLive (runs i).request c₀ = (.ok plan, c₁))
    (hrun : p.commitLive fp plan intake.host.conn = run) :
    Honest p.sv (runs i) (intake.onConn run.2).recorded (.replied (IpcServer.replyTo run.1)) := by
  obtain ⟨result, c'⟩ := run
  have hid : plan.envelope.id = (runs i).eventId p.sv := EventPipeline.planLive_id hplan
  cases EventPipeline.commitLive_run hrun with
  | error => trivial
  | duplicate hseen => exact ⟨hid, Intake.mem_recorded (hrecorded _ hseen)⟩
  | processed _ hrec =>
    have hevent : (c'.db.events.find? plan.envelope.id).isSome := hrec.event_isSome
    refine ⟨hid, ?_⟩
    cases hfind : intake.db.events.find? plan.envelope.id with
    | some r => exact Intake.mem_recorded (hrecorded _ (by rw [hfind]; rfl))
    | none => exact List.mem_append_right _ (Intake.mem_newEvents.mpr ⟨hevent, hfind⟩)

theorem Step.inv {p : EventPipeline} {runs : Nat → HookRun} {s s' : HandOff}
    (hserde : ∀ i, p.sv.decodeRequest (p.sv.encodeRequest (runs i).request) = some (runs i).request)
    (h : Step p runs s act s') (hs : Inv p runs s) : Inv p runs s' := by
  cases h with
  | @normalize i receivedAt h =>
    refine hs.setHelper ?_
    unfold afterNormalize
    split
    · exact normalizeSafeIngress_eventId ..
    · trivial
  | @send i safe h =>
    have hcarries := hs.helper i
    rw [h] at hcarries
    exact Inv.setStream (hs.setHelper hcarries) rfl
  | @giveUp i safe h =>
    have hcarries := hs.helper i
    rcases h with h | h <;> rw [h] at hcarries <;> exact hs.setHelper hcarries
  | @receive i safe response h =>
    have hcarries := hs.helper i
    rw [h] at hcarries
    refine Inv.setStream (hs.setHelper ?_) trivial
    cases response with
    | accepted => trivial
    | rejected => exact hcarries
  | @insert i safe run h =>
    have hcarries := hs.helper i
    rw [h] at hcarries
    refine (hs.onHost _).setHelper ?_
    obtain ⟨result, c'⟩ := run
    cases result with
    | ok => trivial
    | error => exact hcarries
  | spool => exact (hs.onHost _).setHelper trivial
  | invalid _ hparse =>
    refine hs.setStream ?_
    rw [parseRequest_error hparse]
    trivial
  | @queue i bytes request h hparse =>
    have hsent := hs.stream i
    rw [h] at hsent
    have hrequest : request = (runs i).request := by
      obtain rfl : bytes = p.sv.encodeRequest (runs i).request := hsent
      simp only [IpcServer.parseRequest, hserde] at hparse
      split at hparse
      · cases hparse
      · exact (Except.ok.inj hparse).symm
    refine Inv.setStream ⟨hs.recorded, hs.helper, hs.stream, fun j request' hmem => ?_⟩ trivial
    rcases List.mem_append.mp hmem with hmem | hmem
    · exact hs.queue j request' hmem
    · obtain ⟨rfl, rfl⟩ := Prod.mk.inj (List.mem_singleton.mp hmem)
      exact hrequest
  | busy | late => exact hs.setStream trivial
  | close => exact hs.setStream trivial
  | serve hqueue hplan hrun hreply =>
    have hrequest := hs.queue _ _ (hqueue ▸ List.mem_cons_self)
    subst hrequest
    refine Inv.answer ((hs.onHost _).drop hqueue) ?_
    rcases hreply with rfl | rfl
    · exact replyTo_honest hs.recorded hplan hrun
    · trivial
  | refuse hqueue => exact (hs.drop hqueue).answer trivial
  | elsewhere hstep =>
    obtain ⟨host, inserted, rfl⟩ := Intake.Step.eq_onHost hstep
    have h := hs.onHost host
    exact ⟨h.recorded, h.helper, h.stream, h.queue⟩
  | restart => exact ⟨hs.recorded, hs.helper, fun _ => trivial, nofun⟩

@[simp] theorem setHelper_helper (s : HandOff) (i j : Nat) (phase : HelperPhase) :
    (s.setHelper i phase).helper j = if j = i then phase else s.helper j := by
  simp [setHelper, Function.update_apply]

@[simp] theorem setStream_helper (s : HandOff) (i : Nat) (phase : StreamPhase) :
    (s.setStream i phase).helper = s.helper := rfl

@[simp] theorem answer_helper (s : HandOff) (i : Nat) (response : IngressResponse) :
    (s.answer i response).helper = s.helper := by
  unfold answer
  split <;> rfl

/-- A helper that ends in a step of another one had ended before. -/
theorem ended_of_ne {s : HandOff} {phase : HelperPhase}
    (hend : (if j = i then phase else s.helper j) = .ended (.ok ())) (hphase : phase ≠ .ended (.ok ())) :
    s.helper j = .ended (.ok ()) := by
  split at hend
  · exact absurd hend hphase
  · exact hend

/-- What is spooled is held. -/
theorem spoolIngress_holds (h : HookCommand.spoolIngress sv safe s = (.ok (), s')) :
    s'.spool.Holds safe.eventId := by
  obtain ⟨⟨⟩, s₁, h₁, h₂⟩ := Txn.bind_ok_iff.mp h
  rcases Spool.writeExclusive_run (Txn.mapError_ok_iff.mp h₂) with ⟨hpub, -⟩ | ⟨-, e, he⟩
  · refine .inl ?_
    rw [hpub.files (safe.eventId, .json) nofun, if_pos rfl]
    rfl
  · cases he

theorem spoolIngress_db (h : HookCommand.spoolIngress sv safe s = (r, s')) : s'.conn.db = s.conn.db := by
  have hlook : ∀ s : Host, ((fileOp permissionError fun s => some ((), s)).mapError (fun _ => "spool") s :
      Except String Unit × Host).2.conn.db = s.conn.db := fun s => by
    rw [Txn.mapError_snd]
    exact (Spool.Same.look (e := permissionError) (f := fun _ => ()) s).1
  rcases Txn.bind_cases h with ⟨e, h₁, -⟩ | ⟨⟨⟩, s₁, h₁, h₂⟩
  · rw [← hlook s, h₁]
  · have hwrite : (Spool.writeExclusive sv safe s₁).2.conn.db = s₁.conn.db := Spool.writeExclusive_db rfl
    rw [← Txn.mapError_snd fun _ => "spool", h₂] at hwrite
    rw [hwrite, ← hlook s, h₁]

theorem held_insertIngress {intake : Intake} {c' : Conn}
    (hdb : c'.db = intake.db.insertIngress safe) : (intake.onConn c').Held safe.eventId := by
  refine .inl ?_
  change (c'.db.ingressEvents.find? safe.eventId).isSome
  rw [hdb, Database.find?_insertIngress]
  simp

/-- **The step lemma.** A helper ends without an error only in a step after which its event is recorded,
or waits in `ingress_events` or in the spool. -/
theorem Step.ended {p : EventPipeline} {runs : Nat → HookRun} {s s' : HandOff} {j : Nat}
    (h : Step p runs s act s') (hs : Inv p runs s) (hend : s'.helper j = .ended (.ok ())) :
    s.helper j = .ended (.ok ()) ∨ s'.intake.Held ((runs j).eventId p.sv) ∨
      (runs j).eventId p.sv ∈ s'.intake.recorded := by
  cases h with
  | normalize =>
    rw [setHelper_helper] at hend
    refine .inl (ended_of_ne hend ?_)
    unfold afterNormalize
    split <;> nofun
  | send =>
    rw [setStream_helper, setHelper_helper] at hend
    exact .inl (ended_of_ne hend nofun)
  | giveUp =>
    rw [setHelper_helper] at hend
    exact .inl (ended_of_ne hend nofun)
  | @receive i safe response h hreply =>
    rw [setStream_helper, setHelper_helper] at hend
    by_cases hj : j = i
    · subst hj
      have hhonest := hs.stream j
      rw [hreply] at hhonest
      cases response with
      | accepted id => exact .inr (.inr (hhonest.1 ▸ hhonest.2))
      | rejected code => simp [afterReply] at hend
    · rw [if_neg hj] at hend
      exact .inl hend
  | @insert i safe run h hrun =>
    rw [setHelper_helper] at hend
    by_cases hj : j = i
    · subst hj
      have hcarries := hs.helper j
      rw [h] at hcarries
      obtain ⟨result, c'⟩ := run
      rw [← (hcarries : safe.eventId = _)]
      rcases HookCommand.insertIngress_run hrun with ⟨-, hdb⟩ | ⟨⟨e, rfl⟩, -⟩
      · exact .inr (.inl (held_insertIngress hdb))
      · simp [afterInsert] at hend
    · rw [if_neg hj] at hend
      exact .inl hend
  | @spool i safe run h hrun =>
    rw [setHelper_helper] at hend
    by_cases hj : j = i
    · subst hj
      have hcarries := hs.helper j
      rw [h] at hcarries
      obtain ⟨result, h'⟩ := run
      obtain rfl : result = .ok () := by simpa using hend
      rw [← (hcarries : safe.eventId = _)]
      exact .inr (.inl (.inr (spoolIngress_holds hrun)))
    · rw [if_neg hj] at hend
      exact .inl hend
  | invalid | queue | busy | late | close =>
    exact .inl hend
  | serve | refuse =>
    rw [answer_helper] at hend
    exact .inl hend
  | elsewhere | restart => exact .inl hend

/-! ## Runs -/

theorem Initial.inv {p : EventPipeline} {runs : Nat → HookRun} {s : HandOff} (h : Initial s) :
    Inv p runs s where
  recorded id := (h.recorded id).mpr
  helper i := by rw [h.helper i]; trivial
  stream i := by rw [h.stream i]; trivial
  queue := by simp [h.queue]

/-- No history is deleted. -/
def KeepsHistory (_ : HandOff) : Act → Prop
  | .elsewhere (.retain _) | .elsewhere .clear => False
  | _ => True

/-- What is recorded is in `events`. -/
def Stored (intake : Intake) : Prop := ∀ id ∈ intake.recorded, (intake.db.events.find? id).isSome

/-- Tables that keep the events keep what is recorded stored. -/
theorem Stored.onHost {intake : Intake} {host : Host} (h : Stored intake)
    (hkeeps : ∀ id, (intake.db.events.find? id).isSome → (host.conn.db.events.find? id).isSome) :
    Stored (intake.onHost host) := by
  intro id hid
  rcases List.mem_append.mp hid with hid | hid
  · exact hkeeps id (h id hid)
  · exact (Intake.mem_newEvents.mp hid).1

theorem Plan.Recorded.keeps {plan : Plan} (h : plan.Recorded sv now db db') (id : Uuid)
    (hid : (db.events.find? id).isSome) : (db'.events.find? id).isSome := by
  obtain ⟨row, -, hrow⟩ := h.event
  rw [hrow]
  split
  · cases hfind : db.events.find? id with
    | some r => rfl
    | none => rfl
  · exact hid

theorem commitLive_keeps {p : EventPipeline} {run : Except AppError LiveOutcome × Conn}
    (hrun : p.commitLive fp plan c = run) (id : Uuid) (hid : (c.db.events.find? id).isSome) :
    (run.2.db.events.find? id).isSome := by
  obtain ⟨result, c'⟩ := run
  cases EventPipeline.commitLive_run hrun with
  | error hdb => exact hdb ▸ hid
  | duplicate _ hdb => exact hdb ▸ hid
  | processed _ hrec => exact Plan.Recorded.keeps hrec id hid

theorem IngressOnly.keeps {db db' : Database} (h : db.IngressOnly db') (id : Uuid)
    (hid : (db.events.find? id).isSome) : (db'.events.find? id).isSome := by
  obtain ⟨t, rfl⟩ := h
  exact hid

theorem stored_of_step {p : EventPipeline} {s s' : Intake} {act : Intake.Act} (h : Intake.Step p s act s')
    (hact : KeepsHistory t (.elsewhere act)) (hs : Stored s) : Stored s' := by
  cases h with
  | live _ _ hrun => exact hs.onHost (commitLive_keeps hrun)
  | @offline _ _ _ plan _ run hplan hrun =>
    refine hs.onHost fun id hid => ?_
    obtain ⟨result, c'⟩ := run
    cases EventPipeline.commitSafe_run hrun with
    | error hdb => exact hdb ▸ hid
    | duplicate _ hdb => exact hdb ▸ hid
    | processed _ hrec => exact Plan.Recorded.keeps hrec id hid
  | insert hrun => exact hs.onHost (IngressOnly.keeps (HookCommand.insertIngress_only hrun))
  | write hrun => exact hs.onHost fun id hid => by rwa [Spool.writeExclusive_db hrun]
  | claim hrun => exact hs.onHost fun id hid => by rwa [(Spool.claim_run hrun).1]
  | ingest hrun => exact hs.onHost (IngressOnly.keeps (Spool.ingest_run hrun).ingressOnly)
  | unlink _ hrun => exact hs.onHost fun id hid => by rwa [(Spool.Drops.remove.ok hrun).1]
  | take hrun => exact hs.onHost (IngressOnly.keeps (takeIngressBatch_run hrun).1)
  | recoverStale hrun => exact hs.onHost (IngressOnly.keeps (recoverStaleIngress_run hrun).1)
  | retain | clear => exact hact.elim
  | crash hsame => exact hs.onHost fun id hid => by rwa [hsame.1]
  | other hdb => exact hs.onHost fun id hid => by rwa [hdb.events]

@[simp] theorem answer_intake (s : HandOff) (i : Nat) (response : IngressResponse) :
    (s.answer i response).intake = s.intake := by
  unfold answer
  split <;> rfl

theorem Step.stored {p : EventPipeline} {runs : Nat → HookRun} {s s' : HandOff}
    (h : Step p runs s act s') (hact : KeepsHistory s act) (hs : Stored s.intake) : Stored s'.intake := by
  cases h with
  | normalize | send | giveUp | receive | invalid | queue | busy | late | close | restart => exact hs
  | insert _ hrun => exact hs.onHost (IngressOnly.keeps (HookCommand.insertIngress_only hrun))
  | spool _ hrun =>
    refine hs.onHost fun id hid => ?_
    rwa [spoolIngress_db hrun]
  | serve _ _ hrun =>
    rw [answer_intake]
    exact hs.onHost (commitLive_keeps hrun)
  | refuse =>
    rw [answer_intake]
    exact hs
  | elsewhere hstep => exact stored_of_step hstep hact hs

/-- **The hand-over** is at least once: whatever becomes of the exchange, of the insert and of the spool, a
helper ends without an error only when its event is recorded, or waits in `ingress_events` or in the spool;
and `Accepted` is answered only with the identifier of the event, after it was recorded. What was recorded
stays in `events` until history is deleted. -/
theorem handed_over {p : EventPipeline} {runs : Nat → HookRun} {s : HandOff}
    (hserde : ∀ i, p.sv.decodeRequest (p.sv.encodeRequest (runs i).request) = some (runs i).request)
    (h : Reach Initial (Step p runs) (fun _ _ => True) s) :
    (∀ i id, s.stream i = .replied (.accepted id) →
      id = (runs i).eventId p.sv ∧ id ∈ s.intake.recorded) ∧
    (∀ act s' i, Step p runs s act s' → s'.helper i = .ended (.ok ()) →
      s.helper i = .ended (.ok ()) ∨ s'.intake.Held ((runs i).eventId p.sv) ∨
        (runs i).eventId p.sv ∈ s'.intake.recorded) ∧
    (Reach Initial (Step p runs) KeepsHistory s →
      ∀ id ∈ s.intake.recorded, (s.intake.db.events.find? id).isSome) := by
  have hs : Inv p runs s := h.invariant (fun _ => Initial.inv) fun _ _ _ ih hstep _ => hstep.inv hserde ih
  refine ⟨fun i id hreply => ?_, fun act s' i hstep hend => hstep.ended hs hend, fun hkept => ?_⟩
  · have hhonest := hs.stream i
    rw [hreply] at hhonest
    exact hhonest
  · exact hkept.invariant (P := fun s => Stored s.intake) (fun s h id => (h.recorded id).mp)
      fun _ _ _ ih hstep hact => hstep.stored hact ih

/-! ## An accepted event

A session stops at noon, and the application answers. -/

namespace Sample

def run : HookRun where
  captured := CcReminder.Sample.captured Intake.noon
  context := { projects := [], platform := .unix, correlationKey := none }
  commandFingerprint := "fingerprint"

/-- A request travels as the time of its event. -/
def pipeline : EventPipeline :=
  { CcReminder.Sample.pipeline with
    sv := { CcReminder.Sample.services with
      decodeRequest := fun bytes =>
        some (HookCommand.request "fingerprint" (CcReminder.Sample.captured (CcReminder.Sample.decodeTime bytes))) } }

/-- The hook was installed with this version of the helper. -/
def conn : Conn :=
  { CcReminder.Sample.conn Intake.noon with
    db := { (CcReminder.Sample.conn Intake.noon).db with
      hookInstallations := ⟨[{
        agent := .claudeCode, sourceEvent := "Stop", commandFingerprint := "fingerprint"
        helperVersion := CARGO_PKG_VERSION, trustStatus := .notRequired, lastSeenAt := none
        observedCommandFingerprint := none, updatedAt := 0 }], List.nodup_singleton _⟩ } }

def start : HandOff where
  intake := { host := { conn }, inserted := none, recorded := [] }
  helper _ := .captured
  stream _ := .idle
  queue := []

theorem planned : (pipeline.planLive run.request conn).1.toOption.isSome := by decide +kernel

def answer : Except AppError LiveOutcome × Conn :=
  pipeline.commitLive run.request.commandFingerprint (Option.get _ planned) conn

def safe : SafeIngressEvent := run.safe pipeline.sv Intake.noon

def offered : HandOff := start.setHelper 0 (.offering safe)

def sent : HandOff :=
  (offered.setHelper 0 (.waiting safe)).setStream 0 (.sent (pipeline.sv.encodeRequest run.request))

def queued : HandOff := { sent with queue := sent.queue ++ [(0, run.request)] }.setStream 0 .queued

def served : HandOff :=
  { queued with intake := queued.intake.onConn answer.2, queue := [] }.answer 0 (IpcServer.replyTo answer.1)

theorem serde : pipeline.sv.decodeRequest (pipeline.sv.encodeRequest run.request) = some run.request := by
  decide +kernel

theorem initial_start : Initial start where
  recorded id := by
    have hevents : start.intake.db.events = ∅ := rfl
    rw [hevents]
    simp [start]
  helper _ := rfl
  stream _ := rfl
  queue := rfl

theorem reach_served : Reach Initial (Step pipeline fun _ => run) (fun _ _ => True) served := by
  obtain ⟨c, hplan⟩ := run_get planned
  have hnormalize : Step pipeline (fun _ => run) start (.helper 0) offered := .normalize rfl
  have hsend : Step pipeline (fun _ => run) offered (.helper 0) sent := .send rfl (by decide +kernel)
  have hqueue : Step pipeline (fun _ => run) sent (.server 0) queued :=
    .queue rfl (by decide +kernel) (by decide +kernel)
  have hrun : pipeline.commitLive run.request.commandFingerprint (Option.get _ planned)
      queued.intake.host.conn = answer := by
    have hconn : queued.intake.host.conn = conn := rfl
    rw [hconn, answer]
  have hserve : Step pipeline (fun _ => run) queued (.server 0) served := by
    rw [served]
    exact .serve rfl hplan hrun (.inl rfl)
  exact ((((Reach.start initial_start).next hnormalize trivial).next hsend trivial).next hqueue
    trivial).next hserve trivial

/-- The event that is accepted is recorded. -/
theorem handed_over_noon : ∃ s : HandOff, s.stream 0 = .replied (.accepted (run.eventId pipeline.sv)) ∧
    run.eventId pipeline.sv ∈ s.intake.recorded :=
  have haccepted : IpcServer.replyTo answer.1 = .accepted (run.eventId pipeline.sv) := by decide +kernel
  have hreply : served.stream 0 = .replied (.accepted (run.eventId pipeline.sv)) :=
    haccepted ▸ rfl
  ⟨served, hreply, ((handed_over (fun _ => serde) reach_served).1 0 _ hreply).2⟩

end Sample

end HandOff

end CcReminder
