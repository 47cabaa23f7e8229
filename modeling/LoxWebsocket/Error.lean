import LoxWebsocket.Framework.Text

/-!
# Errors

The client's errors, their texts (`Error.display`), and the two classes the
supervisor dispatches on: `isTerminal` and `needsLongBackoff`. Naming the
handshake step that failed (`inStep`) changes neither class.
-/

namespace Lox

inductive Error
  | http (message : Str)
  | httpStatus (status : UInt16) (message : Str)
  | webSocket (message : Str)
  | tls (message : Str)
  | tlsPinMismatch (expected actual : Str)
  | protocol (message : Str)
  | auth (message : Str)
  | crypto (message : Str)
  | json (message : Str)
  | io (message : Str)
  | timeout (message : Str)
  | closed (message : Str)
  | reconnectExhausted (attempts : UInt32)
  | noEventSlots
  | tooManyConnections
  | userDisabled
  | notLocal
  | handlerPanic
  | stopped
  | invalidUuid (message : Str)
  | notConnected
  | backpressure
  | channelClosed
  deriving DecidableEq, Repr

namespace Error

/-- A number in decimal. -/
def decimal (n : Nat) : Str := n.repr.toList

def display : Error → Str
  | http m => "HTTP error: ".toList ++ m
  | httpStatus s m => "HTTP status ".toList ++ decimal s.toNat ++ ": ".toList ++ m
  | webSocket m => "WebSocket error: ".toList ++ m
  | tls m => "TLS error: ".toList ++ m
  | tlsPinMismatch e a =>
    "certificate pin mismatch: expected SPKI ".toList ++ e ++ ", got ".toList ++ a
  | protocol m => "protocol error: ".toList ++ m
  | auth m => "authentication failed: ".toList ++ m
  | crypto m => "encryption error: ".toList ++ m
  | json m => "JSON error: ".toList ++ m
  | io m => "I/O error: ".toList ++ m
  | timeout m => "timeout: ".toList ++ m
  | closed m => "connection closed: ".toList ++ m
  | reconnectExhausted n =>
    "reconnect failed after ".toList ++ decimal n.toNat ++ " attempts".toList
  | noEventSlots => "Miniserver has no free event slots".toList
  | tooManyConnections => "Miniserver has reached its connection limit".toList
  | userDisabled => "the Miniserver has disabled this user".toList
  | notLocal => "connection is not local".toList
  | handlerPanic => "the event handler panicked".toList
  | stopped => "client stopped".toList
  | invalidUuid m => "invalid UUID: ".toList ++ m
  | notConnected => "not connected".toList
  | backpressure => "command channel is full".toList
  | channelClosed => "command channel closed".toList

/-- No amount of reconnecting can change this condition. -/
def isTerminal : Error → Bool
  | notLocal | userDisabled | handlerPanic => true
  | _ => false

/-- This condition needs minutes rather than seconds to clear. -/
def needsLongBackoff : Error → Bool
  | noEventSlots | tooManyConnections => true
  | _ => false

/-- Prefix the message with the handshake step that produced it, unless the
supervisor dispatches on the error. -/
def inStep (e : Error) (step : Str) : Error :=
  if e.isTerminal || e.needsLongBackoff then e else auth (step ++ ": ".toList ++ e.display)

@[simp] theorem isTerminal_inStep (e : Error) (step : Str) : (e.inStep step).isTerminal = e.isTerminal := by
  cases e <;> rfl

@[simp] theorem needsLongBackoff_inStep (e : Error) (step : Str) :
    (e.inStep step).needsLongBackoff = e.needsLongBackoff := by
  cases e <;> rfl

end Error

end Lox
