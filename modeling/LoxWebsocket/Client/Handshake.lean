import LoxWebsocket.Client.State
import LoxWebsocket.Client.Handler
import LoxWebsocket.Client.Control
import LoxWebsocket.Framework.Prog

/-!
# The handshake

The handshake sends a command and reads its answer, one after the other, over
the halves of a connection. Its state (`HsState`) has what the reads of the
connection will give (`ReadEvent`), what the writes will, the salt state, the
handler that event tables go to when they overtake an answer, and the shared
token; `commands` and `exchanges` record the commands sent and those that were
answered, for statements about them.
-/

namespace Lox

inductive OpCode
  | continuation
  | text
  | binary
  | close
  | ping
  | pong
  deriving DecidableEq

/-- What a call of `read_frame` gives: a frame, a failure of the stream, or
nothing within the time allowed. -/
inductive ReadEvent
  | frame (opcode : OpCode) (payload : Bytes)
  | failed (message : Str)
  | elapsed
  deriving DecidableEq

/-- What a handshake is given and does not change. -/
structure HandshakeEnv (C : Crates) where
  world : World
  parsers : Parsers
  keys : SessionKeys C
  cfg : ConnectConfig

structure HsState (η σ : Type) where
  salt : SaltState
  pos : Pos
  /-- The reads to come; nothing more comes after the last. -/
  reads : List ReadEvent
  /-- The error of each write to come, if it has one; later writes succeed. -/
  writes : List (Option Str)
  handler : HandlerGuard η
  shared : SharedState σ
  /-- The texts written. -/
  texts : List Str
  /-- The commands whose encrypted text was written. -/
  commands : List Str
  /-- The commands that were answered, each with its answer. -/
  exchanges : List (Str × Bytes)

namespace Handshake

def tokenMinRemainingSecs : Int64 := 300
def maxInterleavedFrames : Nat := 64

variable {C : Crates} {η σ : Type} [LoxHandler η] [TokenStore σ]

/-- A handshake step. -/
abbrev Hs (η σ α : Type) : Type := Prog (HsState η σ) Error α

/-! ## Frames -/

def readFrameBytes : Hs η σ Bytes := Prog.tryAct fun s =>
  match s.reads with
  | [] => (.error (.timeout "handshake response".toList), s)
  | .elapsed :: reads => (.error (.timeout "handshake response".toList), { s with reads })
  | .failed e :: reads => (.error (.webSocket e), { s with reads })
  | .frame opcode payload :: reads =>
    if opcode = .close then (.error (.closed "closed during handshake".toList), { s with reads })
    else (.ok payload, { s with reads })

def readHeader : Hs η σ WsBinHdr := do
  let bytes ← readFrameBytes
  match parseHeader bytes with
  | .error e => Prog.fail e
  | .ok (some hdr) => pure hdr
  | .ok none => Prog.fail (.protocol ("expected 8-byte header, got ".toList ++
      Error.decimal bytes.length ++ " bytes".toList))

/-- Call into the handler under its guard. -/
def guarded {ρ : Type} (f : Handled η → Option ρ × Handled η) : Hs η σ ρ := Prog.tryAct fun s =>
  let (r, handler) := s.handler.guardOrFail f
  (r, { s with handler })

/-- The payload a header announces; an empty one has no frame. -/
def readBody (hdr : WsBinHdr) : Hs η σ Bytes := if hdr.len = 0 then pure [] else readFrameBytes

/-- The rounds of `readPayload` that are left. -/
def readPayloadLoop : Nat → Hs η σ Bytes
  | 0 => Prog.fail (.protocol "no handshake answer within the interleaved frame budget".toList)
  | n + 1 => do
    let hdr ← readHeader
    if hdr.isEstimated then readPayloadLoop n
    else if hdr.identifier = MessageType.outOfService.toU8 then
      Prog.fail (.closed "out of service".toList)
    else
      let payload ← readBody hdr
      if hdr.identifier = MessageType.text.toU8 then do
        guarded fun h => h.call (.onRawPayload hdr.identifier payload)
        pure payload
      else do
        let _ ← guarded fun h => rawThenEvent hdr.identifier payload h
        readPayloadLoop n

/-- Read the next text answer; event tables that overtake it go to the
handler. -/
def readPayload : Hs η σ Bytes := readPayloadLoop maxInterleavedFrames

def sendText (text : Str) : Hs η σ Unit := Prog.tryAct fun s =>
  match s.writes with
  | some e :: writes => (.error (.webSocket e), { s with writes })
  | none :: writes => (.ok (), { s with writes, texts := s.texts ++ [text] })
  | [] => (.ok (), { s with texts := s.texts ++ [text] })

/-! ## Commands -/

variable (env : HandshakeEnv C)

def encrypt (cmd : Str) : Hs η σ Str := Prog.tryAct fun s =>
  let (r, salt, pos) := s.salt.encrypt env.world env.keys s.pos cmd
  (r, { s with salt, pos })

/-- Encrypted request and its answer. -/
def request (cmd : Str) : Hs η σ Bytes := do
  let encrypted ← encrypt env cmd
  sendText encrypted
  Prog.modify fun s => { s with commands := s.commands ++ [cmd] }
  let resp ← readPayload
  Prog.modify fun s => { s with exchanges := s.exchanges ++ [(cmd, resp)] }
  pure resp

/-- `x`, its error named after the step. -/
def inStep {α : Type} (step : Str) (x : Hs η σ α) : Hs η σ α := x.mapErr (·.inStep step)

def exchange (sessionB64 : Str) : Hs η σ Unit := do
  sendText (cmdKeyExchange ++ sessionB64)
  let resp ← readPayload
  let root ← Prog.lift (parseJson env.parsers resp)
  let _ ← Prog.lift (requireLlOk root)
  pure ()

def keyExchange (sessionB64 : Str) : Hs η σ Unit :=
  inStep "keyexchange".toList (exchange env sessionB64)

inductive LlOutcome
  | ok
  | tokenRejected (code : Str)
  | failed (e : Error)

def classify (payload : Bytes) : LlOutcome :=
  match payloadLlStatus env.parsers payload with
  | some code =>
    if code = "200".toList then .ok
    else if llStatusInvalidatesToken code then .tokenRejected code
    else .failed (llStatusError code)
  | none => .failed (.protocol "response is not an LL envelope".toList)

/-- Authenticate with the stored token; `none` means it was refused and a fresh
one has to be acquired. -/
def reuseToken (token : LxToken) : Hs η σ (Option LxToken) := do
  let keyResp ← inStep "getkey".toList (request env cmdGetKey)
  let hash ← inStep "getkey".toList (Prog.lift (buildTokenHash env.parsers keyResp token))
  let auth ← inStep "authwithtoken".toList (request env (cmdAuthWithToken hash env.cfg.username))
  match classify env auth with
  | .ok => do
    let token ← inStep "authwithtoken".toList (Prog.lift (applyValidUntil env.parsers token auth))
    pure (some token)
  | .tokenRejected _ => pure none
  | .failed e => Prog.fail (e.inStep "authwithtoken".toList)

def killToken (token : LxToken) : Hs η σ Unit := do
  let keyResp ← request env cmdGetKey
  let hash ← Prog.lift (buildTokenHash env.parsers keyResp token)
  let _ ← request env (cmdKillToken hash env.cfg.username)
  pure ()

/-- Kill the token that is to be replaced, if there is one; a failure of that
is passed over. -/
def killDisplaced : Option LxToken → Hs η σ Unit
  | none => pure ()
  | some old => do
    let _ ← (killToken env old).attempt
    pure ()

/-- Acquire a fresh token, killing `displaced` first when there is one. -/
def acquireToken (displaced : Option LxToken) : Hs η σ LxToken := do
  killDisplaced env displaced
  let getkey2 ← inStep "getkey2".toList (request env (cmdGetkey2 env.cfg.username))
  let (cmd, alg) ← inStep "getkey2".toList (Prog.lift (buildAcquireTokenCmd env.parsers getkey2
    env.cfg.username env.cfg.password env.cfg.tokenPermission env.cfg.clientUuid env.cfg.clientInfo))
  let resp ← inStep (cmdLabel cmd) (request env cmd)
  let token ← Prog.lift (parseTokenResponse env.parsers resp alg)
  if token.isEmpty then Prog.fail (.auth "acquire_token: empty token".toList) else pure token

/-- The clock is read once. -/
def secondsToExpire (token : LxToken) : Hs η σ Int64 := Prog.act fun s =>
  let (now, pos) := SaltState.nowSecs env.world s.pos
  (token.secondsToExpire now, { s with pos })

def setToken (token : LxToken) : Hs η σ Unit :=
  Prog.modify fun s => { s with shared := s.shared.setToken token }

def clearToken : Hs η σ Unit := Prog.modify fun s => { s with shared := s.shared.clearToken }

/-- Acquire a token and share it. -/
def replaceToken (displaced : Option LxToken) : Hs η σ Unit := do
  let token ← acquireToken env displaced
  setToken token

/-- Authenticate the connection, reusing the token in memory when possible. -/
def authenticate : Hs η σ Unit := do
  let s ← Prog.get
  let existing := s.shared.token
  if existing.isEmpty then replaceToken env none
  else
    let remaining ← secondsToExpire env existing
    if remaining < tokenMinRemainingSecs then replaceToken env (some existing)
    else
      match ← reuseToken env existing with
      | some token => setToken token
      | none => do
        clearToken
        replaceToken env none

/-- Subscribe to live status updates. -/
def enableUpdates : Hs η σ Unit := do
  let resp ← request env cmdEnableUpdates
  match payloadLlStatus env.parsers resp with
  | some code =>
    if code ≠ "200".toList then
      Prog.fail ((llStatusError code).inStep "enablebinstatusupdate".toList)
    else pure ()
  | none => pure ()

end Handshake

end Lox
