import CcReminder.HookInput
import CcReminder.Pipeline

/-!
# The channel to the application

`ipc/protocol.rs`, and what `serve_stream` of `ipc/server.rs` and the accept loop of `lib.rs` answer.
-/

namespace CcReminder

def CARGO_PKG_VERSION : String := "2.0.1"
def IPC_PROTOCOL_VERSION : UInt16 := 1

/-- The room of the channel between the connections and the accept loop. -/
def IPC_CHANNEL_CAPACITY : Nat := 64

inductive IngressResponse where
  | accepted (eventId : Uuid)
  | rejected (errorCode : String)
  deriving DecidableEq

/-- The request of a helper. -/
def HookCommand.request (commandFingerprint : String) (captured : CapturedHookEvent) : IngressRequest where
  protocolVersion := IPC_PROTOCOL_VERSION
  helperVersion := CARGO_PKG_VERSION
  commandFingerprint := commandFingerprint
  event := captured

namespace IpcServer

/-- The request in a frame, or the response to what is none. -/
def parseRequest (sv : Services) (bytes : List UInt8) : Except IngressResponse IngressRequest :=
  match sv.decodeRequest bytes with
  | none => .error (.rejected "invalid_request")
  | some request =>
    if request.protocolVersion ≠ IPC_PROTOCOL_VERSION then .error (.rejected "invalid_request")
    else .ok request

/-- The reply of the accept loop. -/
def replyTo : Except AppError LiveOutcome → IngressResponse
  | .ok (.processed eventId) => .accepted eventId
  | .ok (.duplicate eventId) => .accepted eventId
  | .error _ => .rejected "unrecognized"

end IpcServer

end CcReminder
