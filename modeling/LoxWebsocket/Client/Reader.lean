import LoxWebsocket.Client.Pending
import LoxWebsocket.Client.Handshake

/-!
# The reader

The reader takes a frame at a time: `FrameExpect` says whether a header or the
payload it announced comes next (`onDataFrame`), and a complete message is
dispatched to the handler, to the keepalive count, or to the command that
waits for it (`onTextMessage`). The queues are shared with the writer, so what
the reader finds in them may have changed between two frames: `ReaderShared`
is that part of its state, and `Reader.run` is given it anew with each frame.
-/

namespace Lox

/-! ## Secured controls -/

/-- Queued secured control awaiting a `getvisusalt` answer. -/
structure VisuPending where
  uuid : Str
  value : Str
  visuPw : Str
  deriving DecidableEq

abbrev VisuQueue := List VisuPending

/-- Enqueue; drops the oldest if already full (capacity 1). -/
def VisuQueue.push (q : VisuQueue) (item : VisuPending) : VisuQueue := q.tail ++ [item]

/-! ## Keepalives -/

structure Liveness where
  sent : Nat
  acked : Nat
  sentAt : Option Instant
  deriving DecidableEq

namespace Liveness

def new : Liveness := ⟨0, 0, none⟩

def recordSent (l : Liveness) (now : Instant) : Liveness := { l with sent := l.sent + 1, sentAt := some now }

/-- Count one answer, and give the time its keepalive went out. -/
def recordAck (l : Liveness) : Option Instant × Liveness :=
  (l.sentAt, ⟨l.sent, if l.acked < l.sent then l.acked + 1 else l.acked, none⟩)

def missed (l : Liveness) : Nat := l.sent - l.acked

end Liveness

/-! ## The reader's state -/

/-- Messages to the writer. -/
inductive WriterMsg
  | obligated (opcode : OpCode) (payload : Bytes)
  | command (cmd : Str) (resp : Option Waiter)
  | shutdown
  deriving DecidableEq

inductive ReadOutcome
  | closed (closeCode : Option UInt16)
  | idleTimeout
  | failed (e : Error)
  deriving DecidableEq

/-- What is expected next. -/
inductive FrameExpect
  | header (announced : UInt32)
  | payload (msgType : UInt8) (len : UInt32)
  deriving DecidableEq

def FrameExpect.start : FrameExpect := .header 0

/-- What the reader shares with the writer, and whether the writer is there. -/
structure ReaderShared where
  pending : PendingQueue
  visu : VisuQueue
  liveness : Liveness
  writerAlive : Bool

structure ReaderState (η : Type) where
  expect : FrameExpect
  handler : HandlerGuard η
  shared : ReaderShared
  /-- Messages sent to the writer, and on oneshots. -/
  out : List WriterMsg
  delivered : List Delivery

/-! ## Answers -/

section

variable {C : Crates} (keys : SessionKeys C) (P : Parsers)

/-- Take the waiter of an answer off the queue. -/
def resolveText (pending : PendingQueue) (payload : Bytes) : Option Resolved × PendingQueue :=
  match pending.resolve (extractLlControl payload) keys with
  | (none, pending) => (none, pending.noteUnsolicited)
  | (some resolved, pending) => (some resolved, pending)

/-- An answer that finds no waiter is counted. -/
theorem resolveText_nil {q : PendingQueue} (h : q.entries = []) (payload : Bytes) :
    resolveText keys q payload = (none, q.noteUnsolicited) := by
  rw [resolveText, PendingQueue.resolve_nil h]

theorem resolveText_cons {q : PendingQueue} {e : PendingEntry} {rest : List PendingEntry}
    (h : q.entries = e :: rest) (payload : Bytes) :
    ∃ r n, resolveText keys q payload = (some r, ⟨rest, n, q.unsolicited, q.timeouts⟩) ∧
      r.plaintextCmd = e.plaintextCmd ∧ r.resp = e.resp := by
  obtain ⟨r, n, hr, hcmd, hresp⟩ := PendingQueue.resolve_cons h (extractLlControl payload) keys
  exact ⟨r, n, by rw [resolveText, hr], hcmd, hresp⟩

/-- The secured command of a queued control, if its password can be hashed. -/
def securedCmd (keySalt : KeySalt) (item : VisuPending) : Option Str :=
  match hashVisuPassword P keySalt item.visuPw with
  | .ok hash => some ("jdev/sps/ios/".toList ++ hash ++ "/".toList ++ item.uuid ++ "/".toList ++ item.value)
  | .error _ => none

/-- The secured commands a `getvisusalt` answer releases; the queue is emptied
even if the answer is of no use. -/
def flushVisu (visu : VisuQueue) (payload : Bytes) : List Str :=
  match parseKeySalt P payload with
  | .ok keySalt => visu.filterMap (securedCmd P keySalt)
  | .error _ => []

/-- Whether an answer releases the secured controls: only that of a
`getvisusalt` does. -/
def releasesVisu (resolved : Resolved) (visu : VisuQueue) : Bool :=
  cmdGetVisualPasswd.isPrefixOf resolved.plaintextCmd && !visu.isEmpty

end

namespace Reader

variable {C : Crates} {η : Type} [LoxHandler η] (keys : SessionKeys C) (P : Parsers)

/-- A step of the reader. -/
abbrev Rd (η α : Type) : Type := Prog (ReaderState η) Error α

def guarded {ρ : Type} (f : Handled η → Option ρ × Handled η) : Rd η ρ := Prog.tryAct fun s =>
  let (r, handler) := s.handler.guardOrFail f
  (r, { s with handler })

/-- Send the released commands to the writer, if it is there. -/
def releaseVisu (payload : Bytes) (s : ReaderState η) : ReaderState η :=
  let cmds := flushVisu P s.shared.visu payload
  let s := { s with shared := { s.shared with visu := [] } }
  if s.shared.writerAlive then { s with out := s.out ++ cmds.map (.command · none) } else s

omit [LoxHandler η] in
@[simp] theorem visu_releaseVisu (payload : Bytes) (s : ReaderState η) :
    (releaseVisu P payload s).shared.visu = [] := by
  unfold releaseVisu
  dsimp only
  split
  · rfl
  · rfl

/-- Correlate a type-0 answer with the command that asked for it. -/
def onTextMessage (payload : Bytes) : Rd η Unit := do
  let s ← Prog.get
  let (resolved, pending) := resolveText keys s.shared.pending payload
  Prog.modify fun s => { s with shared := { s.shared with pending } }
  match resolved with
  | none => guarded fun h => h.call (.onJson payload)
  | some resolved => Prog.modify fun s =>
      let s := if releasesVisu resolved s.shared.visu then releaseVisu P payload s else s
      { s with delivered := s.delivered ++ resolved.resp.toList.map fun w => (w, .ok payload) }

theorem onTextMessage_unsolicited {keys : SessionKeys C} {payload : Bytes} {s : ReaderState η}
    {pending : PendingQueue} (h : resolveText keys s.shared.pending payload = (none, pending)) :
    onTextMessage keys P payload s =
      guarded (fun h => h.call (.onJson payload)) { s with shared := { s.shared with pending } } := by
  simp only [onTextMessage, Prog.bind_apply, Prog.get, Prog.modify, h]

theorem onTextMessage_resolved {keys : SessionKeys C} {payload : Bytes} {s : ReaderState η}
    {resolved : Resolved} {pending : PendingQueue}
    (h : resolveText keys s.shared.pending payload = (some resolved, pending)) :
    onTextMessage keys P payload s =
      let s := { s with shared := { s.shared with pending } }
      let s := if releasesVisu resolved s.shared.visu then releaseVisu P payload s else s
      (.ok (), { s with delivered := s.delivered ++ resolved.resp.toList.map fun w => (w, .ok payload) }) := by
  simp only [onTextMessage, Prog.bind_apply, Prog.get, Prog.modify, h]

def dispatch (msgType : UInt8) (payload : Bytes) : Rd η Unit := do
  let dispatched ← guarded fun h => rawThenEvent msgType payload h
  if dispatched then pure ()
  else
    match MessageType.fromU8 msgType with
    | some .text => onTextMessage keys P payload
    | some .keepalive => do
      Prog.modify fun s =>
        { s with shared := { s.shared with liveness := s.shared.liveness.recordAck.2 } }
      guarded fun h => h.call .onKeepalive
    | _ => pure ()

def setExpect (expect : FrameExpect) : Rd η Unit := Prog.modify fun s => { s with expect }

/-- A header frame. One that is no header is passed over. -/
def onHeader (frame : Bytes) : Rd η (Option ReadOutcome) :=
  match parseHeader frame with
  | .ok (some hdr) =>
    if hdr.isEstimated then do
      setExpect (.header hdr.len)
      pure none
    else if hdr.identifier = MessageType.outOfService.toU8 then pure (some (.closed (some 1012)))
    else if hdr.len = 0 then do
      dispatch keys P hdr.identifier []
      setExpect .start
      pure none
    else do
      setExpect (.payload hdr.identifier hdr.len)
      pure none
  | .ok none => pure none
  | .error _ => pure none

def onDataFrame (frame : Bytes) : Rd η (Option ReadOutcome) := do
  let s ← Prog.get
  match s.expect with
  | .header _ => onHeader keys P frame
  | .payload msgType _ => do
    dispatch keys P msgType frame
    setExpect .start
    pure none

def parseCloseCode : Bytes → Option UInt16
  | a :: b :: _ => some (UInt16.ofNat (256 * a.toNat + b.toNat))
  | _ => none

/-- Read until the session ends: with each event, what the reader shares is as
others have left it. When nothing more comes, the idle timeout ends it. -/
def run : List (ReaderShared × ReadEvent) → ReaderState η → ReadOutcome × ReaderState η
  | [], s => (.idleTimeout, s)
  | (shared, event) :: rest, s =>
    let s := { s with shared }
    match event with
    | .elapsed => (.idleTimeout, s)
    | .failed e => (.failed (.webSocket e), s)
    | .frame opcode payload =>
      match opcode with
      | .close => (.closed (parseCloseCode payload), s)
      | .text | .binary =>
        match onDataFrame keys P payload s with
        | (.ok none, s) => run rest s
        | (.ok (some outcome), s) => (outcome, s)
        | (.error e, s) => (.failed e, s)
      | .ping | .pong | .continuation => run rest s

end Reader

end Lox
