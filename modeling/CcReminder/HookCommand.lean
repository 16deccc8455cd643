import CcReminder.Events.Normalize
import CcReminder.Storage.Spool

/-!
# The helper

`hook_command.rs`, from the captured event on. The helper offers the event to the application; when
it gets no `Accepted` it keeps the safe part, in the database or else in the spool.
-/

namespace CcReminder

open Lib Host

variable (sv : Services)

namespace HookCommand

structure Context where
  projects : List ProjectRegistration
  platform : PathPlatform
  correlationKey : Option (List UInt8)

/-- The last resort of `process`. -/
def spoolIngress (safe : SafeIngressEvent) : Txn String Host Unit := do
  (fileOp permissionError fun s => some ((), s)).mapError fun _ => "spool"
  (Spool.writeExclusive sv safe).mapError fun _ => "spool"

/-- The end of `process`; `accepted` says whether the application answered `Accepted`. -/
def handOver (safe : SafeIngressEvent) (accepted : Bool) : Txn String Host Unit :=
  match validateSafeEnvelope sv safe with
  | .error e => .fail e
  | .ok _ =>
    if accepted then pure ()
    else do
      match ← (onConn (insertIngress sv safe)).result with
      | .ok () => pure ()
      | .error (_ : String) => spoolIngress sv safe

/-- `process` for a hook whose input was captured. -/
def process (captured : CapturedHookEvent) (context : Context) (accepted : Bool) :
    Txn String Host Unit := do
  let receivedAt := (← (onConn draw).mapError fun _ => "").utcNow
  let safe := normalizeSafeIngress sv captured context.projects context.platform
    context.correlationKey receivedAt
  handOver sv safe accepted

end HookCommand

end CcReminder
