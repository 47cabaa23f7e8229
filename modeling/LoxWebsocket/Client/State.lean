import LoxWebsocket.Auth.Store
import LoxWebsocket.Crypto.Session

/-!
# Configuration and shared state

`SharedState` holds the token in memory and mirrors it into the `TokenStore`
of the configuration, if there is one: every change of the token goes through
`setToken`, `clearToken` or `restoreToken`.
-/

namespace Lox

/-- The options of a connection, as far as the modelled functions read them. -/
structure ConnectConfig where
  username : Str
  password : Str
  /-- Send `enablebinstatusupdate` after authentication. -/
  receiveUpdates : Bool
  localOnly : Bool
  /-- Zero is unlimited. -/
  maxReconnectAttempts : UInt32
  clientUuid : Str
  clientInfo : Str
  tokenPermission : TokenPermission
  connectDelaySecs : Nat
  longBackoffSecs : Nat
  commandTimeoutSecs : Nat
  maxMissedKeepalives : Nat
  maxPendingCommands : Nat
  killTokenOnStop : Bool

/-- Where the token is kept between runs, and under which identity. -/
structure TokenPersistence (σ : Type) where
  store : σ
  binding : Str
  deriving DecidableEq

structure SharedState (σ : Type) where
  token : LxToken
  persist : Option (TokenPersistence σ)
  deriving DecidableEq

namespace SharedState

variable {σ : Type} [TokenStore σ]

/-- Replace the token, mirroring it into the store if there is one. -/
def setToken (shared : SharedState σ) (token : LxToken) : SharedState σ :=
  ⟨token, shared.persist.map fun p => { p with store := TokenStore.save p.store p.binding token }⟩

/-- Forget the token. -/
def clearToken (shared : SharedState σ) : SharedState σ :=
  ⟨shared.token.clear,
    shared.persist.map fun p => { p with store := TokenStore.clear p.store p.binding }⟩

/-- Adopt a token left behind by an earlier run, if the store has a usable one;
`now` is the clock reading. -/
def restoreToken (shared : SharedState σ) (now : UInt64) : SharedState σ :=
  match shared.persist with
  | none => shared
  | some p =>
    match TokenStore.load p.store p.binding with
    | none => shared
    | some token =>
      if token.isEmpty ∨ token.secondsToExpire now ≤ 0 then
        { shared with persist := some { p with store := TokenStore.clear p.store p.binding } }
      else { shared with token }

/-- The `validUntil` of the current token, if there is one. -/
def tokenValidUntil (shared : SharedState σ) : Option Int64 :=
  if shared.token.isEmpty then none else some shared.token.validUntil

@[simp] theorem token_setToken (shared : SharedState σ) (token : LxToken) :
    (shared.setToken token).token = token := rfl

@[simp] theorem token_clearToken (shared : SharedState σ) :
    shared.clearToken.token = shared.token.clear := rfl

end SharedState

end Lox
