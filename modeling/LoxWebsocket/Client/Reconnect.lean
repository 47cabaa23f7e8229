import LoxWebsocket.Error

/-!
# Reconnect and token-retention policy

What a close code says about the next attempt, the client and the token.
-/

namespace Lox

/-- Zero means unlimited attempts. -/
def shouldContinue (attempt maxAttempts : UInt32) : Bool := maxAttempts == 0 || attempt < maxAttempts

/-- How long to wait before the next connect attempt. -/
inductive Backoff
  | normal
  | long
  deriving DecidableEq

def backoffForClose (code : Option UInt16) : Backoff :=
  if code = some 4003 ∨ code = some 4007 ∨ code = some 4008 then .long else .normal

/-- The error a close code the client cannot reconnect out of maps to. -/
def terminalClose (code : Option UInt16) : Option Error :=
  if code = some 4006 then some .userDisabled else none

/-- Whether the token stays usable after a disconnect with `code`. -/
def tokenSurvivesClose (code : Option UInt16) : Bool :=
  !(code = some 4004 ∨ code = some 4005 ∨ code = some 4006)

end Lox
