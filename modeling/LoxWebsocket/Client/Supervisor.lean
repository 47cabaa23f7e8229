import LoxWebsocket.Client.Reader
import LoxWebsocket.Client.Reconnect

/-!
# The supervisor

`Supervisor.round` is one iteration of the supervisor's loop: a session
(`sessionOnce`: the handshake, then the reader on what is left of the stream),
what its outcome means for the token and the client (`onOutcome`), and the wait
before the next attempt; `runSupervisor` is the task. What is outside the
supervisor in a round (the stream, the writer and the refresher, stop requests,
the clock) is given by `Round`.
-/

namespace Lox

inductive ConnState
  | closed
  | connecting
  | connected
  | reconnecting
  deriving DecidableEq

inductive SessionOutcome
  | stopped
  | disconnected (closeCode : Option UInt16)
  | failed (e : Error)
  deriving DecidableEq

/-- Session result, with whether the command receiver came back. -/
structure SessionResult where
  outcome : SessionOutcome
  cmdRx : Bool
  /-- How long the session ran once connected, in seconds. -/
  connectedFor : Option Nat

def productiveSessionSecs : Nat := 60

/-- What happens around a session. -/
structure SessionWorld (C : Crates) (σ : Type) where
  /-- The result of all that comes before the handshake. -/
  setup : Except Error Unit
  keys : SessionKeys C
  sessionB64 : Str
  pos : Pos
  reads : List ReadEvent
  writes : List (Option Str)
  /-- What the reader finds in the shared queues at each event. -/
  seen : Nat → ReaderShared
  /-- What the writer and the refresher have done to the token. -/
  tokenOps : SharedState σ → SharedState σ
  /-- Whether a stop is requested when the reader returns, and when the outcome
  is decided. -/
  stoppedEarly : Bool
  stopped : Bool
  /-- Whether the writer ended in time. -/
  joined : Bool
  connectedFor : Nat

/-- What happens around a round: whether a stop is requested at its start and
during the wait at its end. -/
structure Round (C : Crates) (σ : Type) where
  stoppedAtTop : Bool
  session : SessionWorld C σ
  stoppedInWait : Bool

structure Supervisor (η σ : Type) where
  handler : HandlerGuard η
  shared : SharedState σ
  state : ConnState
  /-- What `ready` was signalled with. -/
  ready : Option (Except Error Unit)
  cmdRx : Bool
  attempt : UInt32
  everConnected : Bool
  /-- The waits begun, with their seconds. -/
  waits : List (Backoff × Nat)

/-- The handshake of a session. -/
def Handshake.all {C : Crates} {η σ : Type} [LoxHandler η] [TokenStore σ] (env : HandshakeEnv C)
    (sessionB64 : Str) : Hs η σ Unit := do
  keyExchange env sessionB64
  authenticate env
  if env.cfg.receiveUpdates then enableUpdates env else pure ()

namespace Supervisor

variable {C : Crates} {η σ : Type} [LoxHandler η] [TokenStore σ] (cfg : ConnectConfig) (world : World)
  (P : Parsers)

def delaySecs : Backoff → Nat
  | .normal => cfg.connectDelaySecs
  | .long => cfg.longBackoffSecs

def signal (r : Except Error Unit) (s : Supervisor η σ) : Supervisor η σ :=
  { s with ready := s.ready.or (some r) }

/-- Terminal bookkeeping. -/
def finish (error : Option Error) (s : Supervisor η σ) : Supervisor η σ :=
  { s.signal (.error (error.getD .stopped)) with
    state := .closed, handler := s.handler.lifecycle .closed }

/-- Wait before the next attempt; `false` if there is none. -/
def waitReconnect (stopped : Bool) (backoff : Backoff) (s : Supervisor η σ) : Bool × Supervisor η σ :=
  if !shouldContinue s.attempt cfg.maxReconnectAttempts then
    (false, { s with state := .closed, handler := s.handler.lifecycle .closed })
  else
    let s := { s with
      attempt := s.attempt + 1, waits := s.waits ++ [(backoff, delaySecs cfg backoff)], state := .reconnecting }
    if stopped then (false, { s with state := .closed, handler := s.handler.lifecycle .closed })
    else (true, s)

/-- The events of a stream, each with what the reader finds shared. -/
def readerEvents (seen : Nat → ReaderShared) (reads : List ReadEvent) : List (ReaderShared × ReadEvent) :=
  reads.zipIdx.map fun x => (seen x.2, x.1)

/-- The state in which a handshake starts. -/
def handshakeState (w : SessionWorld C σ) (s : Supervisor η σ) : HsState η σ :=
  ⟨SaltState.new, w.pos, w.reads, w.writes, s.handler, s.shared, [], [], []⟩

/-- After the handshake. -/
def connected (w : SessionWorld C σ) (hs : HsState η σ) (s : Supervisor η σ) : Supervisor η σ :=
  { s.signal (.ok ()) with
    handler := hs.handler.lifecycle (if s.everConnected then .reconnected else .connected)
    shared := w.tokenOps hs.shared
    state := .connected }

/-- What the end of the reader means for the session. -/
def sessionOutcome (stopped : Bool) (read : ReadOutcome) : SessionOutcome :=
  if stopped then .stopped
  else
    match read with
    | .closed closeCode => .disconnected closeCode
    | .idleTimeout => .failed (.timeout "no frame within the reader idle window".toList)
    | .failed e => .failed e

def sessionOnce (w : SessionWorld C σ) (s : Supervisor η σ) : SessionResult × Supervisor η σ :=
  match w.setup with
  | .error e => (⟨.failed e, true, none⟩, s)
  | .ok () =>
    match Handshake.all ⟨world, P, w.keys, cfg⟩ w.sessionB64 (s.handshakeState w) with
    | (.error e, hs) => (⟨.failed e, true, none⟩, { s with handler := hs.handler, shared := hs.shared })
    | (.ok (), hs) =>
      let s := s.connected w hs
      let (read, r) := Reader.run w.keys P (readerEvents w.seen hs.reads) ⟨.start, s.handler, w.seen 0, [], []⟩
      (⟨sessionOutcome w.stopped read, w.joined, some w.connectedFor⟩,
        { s with handler := r.handler, state := if w.stoppedEarly then s.state else .reconnecting })

/-- A session that ran clears the budget of attempts if it was productive. -/
def afterSession (result : SessionResult) (s : Supervisor η σ) : Supervisor η σ :=
  match result.connectedFor with
  | none => { s with cmdRx := result.cmdRx }
  | some sessionLen =>
    { s with
      cmdRx := result.cmdRx, everConnected := true
      attempt := if sessionLen ≥ productiveSessionSecs then 0 else s.attempt }

/-- How long to wait after a session, or the end of the client. -/
def onOutcome (outcome : SessionOutcome) (s : Supervisor η σ) : Option Backoff × Supervisor η σ :=
  match outcome with
  | .stopped => (none, s.finish (some .stopped))
  | .disconnected closeCode =>
    let s := { s with handler := s.handler.lifecycle (.connectionClosed closeCode) }
    let s := if tokenSurvivesClose closeCode then s
      else { s with shared := s.shared.clearToken }
    match terminalClose closeCode with
    | some e => (none, s.finish (some e))
    | none => (some (backoffForClose closeCode), s)
  | .failed e =>
    if e.isTerminal then (none, s.finish (some e))
    else if !s.everConnected then (none, s.finish (some e))
    else (some (if e.needsLongBackoff then .long else .normal), s)

/-- What follows a session's outcome; `false` when the supervisor returns. -/
def react (stoppedInWait : Bool) (outcome : SessionOutcome) (s : Supervisor η σ) : Bool × Supervisor η σ :=
  match onOutcome outcome s with
  | (none, s) => (false, s)
  | (some backoff, s) => waitReconnect cfg stoppedInWait backoff s

/-- One iteration of the loop. -/
def round (r : Round C σ) (s : Supervisor η σ) : Bool × Supervisor η σ :=
  if r.stoppedAtTop then (false, s.finish (some .stopped))
  else if s.handler.panicked then (false, s.finish (some .handlerPanic))
  else
    let s := { s with state := if s.everConnected then .reconnecting else .connecting }
    if !s.cmdRx then (false, s.finish none)
    else
      let (result, s) := sessionOnce cfg world P r.session s
      react cfg r.stoppedInWait result.outcome (afterSession result s)

/-- The state in which a session starts. -/
def starting (s : Supervisor η σ) : Supervisor η σ :=
  { s with state := if s.everConnected then .reconnecting else .connecting }

/-- A session, and the state it is started in. -/
structure Attempt (C : Crates) (η σ : Type) where
  session : SessionWorld C σ
  start : Supervisor η σ

/-- The session of a round, unless the supervisor returns before it. -/
def attempted (r : Round C σ) (s : Supervisor η σ) : Option (Attempt C η σ) :=
  if r.stoppedAtTop || s.handler.panicked || !s.cmdRx then none else some ⟨r.session, s.starting⟩

/-- The loop, for as many rounds as it makes of those given; `true` when it goes
on after them. -/
def loop : List (Round C σ) → Supervisor η σ → Bool × Supervisor η σ
  | [], s => (true, s)
  | r :: rounds, s =>
    match round cfg world P r s with
    | (true, s) => loop rounds s
    | (false, s) => (false, s)

/-- Before the first round. -/
def start (handler : η) (shared : SharedState σ) : Supervisor η σ :=
  ⟨.new handler, shared, .closed, none, true, 0, false, []⟩

/-- The supervisor task: `setup` is what the URL and the TLS options gave. -/
def runSupervisor (setup : Except Error Unit) (rounds : List (Round C σ)) (handler : η) (shared : SharedState σ) :
    Bool × Supervisor η σ :=
  match setup with
  | .error e => (false, (start handler shared).finish (some e))
  | .ok () => loop cfg world P rounds (start handler shared)

end Supervisor

end Lox
