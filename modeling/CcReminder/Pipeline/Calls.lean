import CcReminder.Pipeline.Intake

/-!
# Whole calls as chains of steps

`process_live`, `recover_ingress`, a drain of the spool, the helper's `process` and a retention pass
make several steps of `Intake.Step` one after the other, between which anything else may happen. Run
without interruption each of them is a chain of those steps.
-/

set_option autoImplicit true

namespace CcReminder

open Lib Host

namespace Intake

abbrev Steps (p : EventPipeline) : Intake → Intake → Prop :=
  Relation.ReflTransGen fun s s' => ∃ act, Step p s act s'

theorem onConn_ok {x : Txn ε Conn α} {h h' : Host} (hrun : Host.onConn x h = (.ok a, h')) :
    x h.conn = (.ok a, (x h.conn).2) := by
  have : (x h.conn).1 = .ok a := congrArg Prod.fst hrun
  rw [← this]

/-- Each run of a computation is a chain of steps. -/
def Chains (p : EventPipeline) (x : Txn ε Host α) : Prop :=
  ∀ s : Intake, ∃ s', Steps p s s' ∧ s'.host = (x s.host).2

namespace Chains

variable {p : EventPipeline}

theorem pure (a : α) : Chains p (Pure.pure a : Txn ε Host α) := fun s => ⟨s, .refl, rfl⟩

theorem fail (e : ε) : Chains p (.fail e : Txn ε Host α) := fun s => ⟨s, .refl, rfl⟩

/-- The rest runs on a value that the first part returned. -/
theorem bind {x : Txn ε Host α} {f : α → Txn ε Host β} (hx : Chains p x)
    (hf : ∀ a, (∃ h h', x h = (.ok a, h')) → Chains p (f a)) : Chains p (x >>= f) := by
  intro s
  obtain ⟨s₁, hs₁, hhost₁⟩ := hx s
  rw [Txn.bind_run]
  rcases hrun : x s.host with ⟨e | a, h₁⟩ <;> rw [hrun] at hhost₁
  · exact ⟨s₁, hs₁, hhost₁⟩
  · obtain ⟨s₂, hs₂, hhost₂⟩ := hf a ⟨_, _, hrun⟩ s₁
    rw [hhost₁] at hhost₂
    exact ⟨s₂, hs₁.trans hs₂, hhost₂⟩

theorem result {x : Txn ε Host α} (hx : Chains p x) :
    Chains p (x.result : Txn ε' Host (Except ε α)) := hx

theorem mapError {f : ε → ε'} {x : Txn ε Host α} (hx : Chains p x) : Chains p (x.mapError f) := by
  intro s
  obtain ⟨s', hs, hhost⟩ := hx s
  exact ⟨s', hs, by rw [hhost, Txn.mapError_snd]⟩

theorem of_step {x : Txn ε Host α}
    (h : ∀ s, ∃ act, Step p s act (s.onHost (x s.host).2)) : Chains p x :=
  fun s => ⟨_, .single (h s), rfl⟩

/-- What neither changes a table nor a spooled file is a step of the rest of the program. -/
theorem of_keeps {x : Txn ε Host α} (hx : Keeps Spool.Same x) : Chains p x :=
  of_step fun s => ⟨.other, .other (.of_eq (hx s.host).1) (hx s.host).2⟩

theorem of_readsOnly {x : Tx α} (hx : ReadsOnly x) : Chains p (Host.onConn x) :=
  of_keeps fun s => .of_eq (hx s.conn) rfl

theorem onConn_bind {x : Txn ε Conn α} {f : α → Txn ε Conn β}
    (h : Chains p (do let a ← Host.onConn x; Host.onConn (f a))) : Chains p (Host.onConn (x >>= f)) := by
  have heq : Host.onConn (x >>= f) = (do let a ← Host.onConn x; Host.onConn (f a) : Txn ε Host β) := by
    funext s
    simp only [Host.onConn, Txn.bind_run]
    rcases x s.conn with ⟨e | a, c⟩ <;> rfl
  rwa [heq]

theorem onConn_attempt {x : Tx α} (h : Chains p (Host.onConn x)) :
    Chains p (Host.onConn (attempt x)) := by
  intro s
  obtain ⟨s', hs, hhost⟩ := h s
  refine ⟨s', hs, hhost.trans ?_⟩
  simp only [Host.onConn, attempt, Txn.step_run]
  rcases x s.host.conn with ⟨e | a, c⟩ <;> rfl

theorem onConn_each {f : α → Tx Unit} (h : ∀ a, Chains p (Host.onConn (f a))) :
    ∀ as, Chains p (Host.onConn (.each f as))
  | [] => pure ()
  | a :: as => onConn_bind ((h a).bind fun _ _ => onConn_each h as)

/-! ## The pipeline -/

/-- A live request, as it was received. -/
theorem processLive (hreceived : p.sv.decodeRequest (p.sv.encodeRequest sent) = some request) :
    Chains p (Host.onConn (p.processLive request)) :=
  onConn_bind <| (of_readsOnly .planLive).bind fun _ ⟨_, _, hplan⟩ =>
    of_step fun _ => ⟨_, .live hreceived (onConn_ok hplan) rfl⟩

theorem processSafe : Chains p (Host.onConn (p.processSafeIngressWith template safe)) :=
  onConn_bind <| (of_readsOnly .planSafe).bind fun _ ⟨_, _, hplan⟩ =>
    of_step fun _ => ⟨_, .offline (onConn_ok hplan) rfl⟩

theorem recoverIngress : Chains p (Host.onConn p.recoverIngress) := by
  have htemplate : ReadsOnly EventPipeline.globalNotificationTemplate :=
    (ReadsOnly.attempt ReadsOnly.read).bind fun _ => .pure _
  have htake : Chains p (Host.onConn (takeIngressBatch 50)) := of_step fun _ => ⟨_, .take rfl⟩
  refine onConn_bind <| (of_readsOnly htemplate).bind fun template _ => ?_
  refine onConn_bind <| htake.bind fun batch _ => ?_
  refine onConn_bind <| (onConn_each (fun safe => ?_) batch).bind fun _ _ => pure _
  exact onConn_bind <| (onConn_attempt processSafe).bind fun _ _ => pure _

/-! ## The spool -/

theorem drainFile (path : Uuid × SpoolExtension) : Chains p (Spool.drainFile p.sv path) := by
  have hclaim : Chains p (Spool.claim path) := of_step fun _ => ⟨_, .claim rfl⟩
  refine hclaim.bind fun claimed _ => ?_
  cases claimed with
  | false => exact pure _
  | true =>
    intro s
    have hingest : Step p s (.ingest path.1) _ := .ingest rfl
    rw [if_pos rfl, Txn.bind_run]
    rcases hrun : Spool.ingest p.sv path.1 s.host with ⟨e | event, h₁⟩ <;> rw [hrun] at hingest
    · exact ⟨_, .single ⟨_, hingest⟩, rfl⟩
    · cases event with
      | none => exact ⟨_, .single ⟨_, hingest⟩, rfl⟩
      | some event =>
        -- the drain removes the file that it remembers
        have hunlink : Step p { s.onHost h₁ with inserted := some path.1 } (.unlink path.1) _ :=
          .unlink rfl rfl
        refine ⟨_, .tail (.single ⟨_, hingest⟩) ⟨_, hunlink⟩, ?_⟩
        dsimp only [onHost]
        rw [Txn.bind_run]
        rcases Spool.unlink path.1 h₁ with ⟨e | u, h₂⟩ <;> rfl

theorem drainFiles : ∀ paths, Chains p (Spool.drainFiles p.sv paths)
  | [] => pure _
  | path :: paths => (drainFile path).bind fun _ _ => (drainFiles paths).bind fun _ _ => pure _

theorem drain (limit : Nat) : Chains p (Spool.drain p.sv limit) :=
  (of_keeps Spool.Same.look).bind fun _ _ => drainFiles _

theorem handOver (safe : SafeIngressEvent) (accepted : Bool) :
    Chains p (HookCommand.handOver p.sv safe accepted) := by
  unfold HookCommand.handOver
  split
  · exact fail _
  split
  · exact pure _
  refine (result (of_step fun _ => ⟨_, .insert rfl⟩)).bind fun r _ => ?_
  cases r with
  | ok => exact pure _
  | error =>
    refine (mapError (of_keeps Spool.Same.look)).bind fun _ _ => mapError ?_
    exact of_step fun _ => ⟨_, .write rfl⟩

theorem process (captured : CapturedHookEvent) (context : HookCommand.Context) (accepted : Bool) :
    Chains p (HookCommand.process p.sv captured context accepted) :=
  (mapError (of_readsOnly .draw)).bind fun _ _ => handOver _ _

/-! ## Retention -/

theorem runOnce (now : DateTime) : Chains p (Host.onConn (CcReminder.runOnce now)) := by
  refine onConn_bind <| (of_readsOnly .connect).bind fun _ _ => ?_
  refine onConn_bind <| (of_readsOnly .retentionSettings).bind fun days _ => ?_
  refine onConn_bind <| Chains.bind (of_step fun _ => ⟨_, .retain rfl⟩) fun stats _ => ?_
  exact onConn_bind <| (of_readsOnly .shouldVacuum).bind fun _ _ => pure _

end Chains

end Intake

end CcReminder
