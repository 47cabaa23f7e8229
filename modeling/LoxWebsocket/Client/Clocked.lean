import LoxWebsocket.Client.WriteHalf
import LoxWebsocket.Framework.Clock

/-!
# A session on the clock

The tasks of an established session with their timeouts: the writer, and
`session_once`, which runs the reader and then ends the session. A task that can
go on does so at once; it waits for the Miniserver, for a timer, or for room in
the channel from the reader to the writer, which holds `writerChannelDepth`
messages. All these waits end by themselves, but for the flush after the close
frame: `Timing.flush` bounds it.

`late` is how far behind a deadline the writer can be when it comes to a point,
and `stay` how long it is there. A move does not make it later than the point it
leads to allows (`late_of_moves`).

So a command that is not answered is given up in time, and a session ends in time
after the last frame it has heard, whatever the Miniserver and the callers do
(`session_on_time`). The waits of the two tasks for each other do not lock: one of
them can always go on, or time passes (`session_never_stuck`).
-/

namespace Lox

/-! ## Timeouts -/

def writeTimeoutSecs : Nat := 20

def shutdownCommandTimeoutSecs : Nat := 3

def shutdownJoinTimeoutSecs : Nat := 10

def writerChannelDepth : Nat := 16

def minPayloadThroughputBytesPerSec : Nat := 32 * 1024

def maxPayloadExtensionSecs : Nat := 10 * 60

structure Timing where
  /-- What a second is on the clock. -/
  second : Nat
  keepalivePeriod : Nat
  /-- A tick that is not later than this is not missed. -/
  tolerance : Nat
  idleTimeout : Nat
  flush : Nat

namespace Timing

variable (T : Timing)

/-- How long the reader waits for the frame that carries `announcedLen` bytes. -/
def readTimeout (announcedLen : UInt32) : Nat :=
  if announcedLen = 0 then T.idleTimeout
  else
    let extra := min ((announcedLen.toNat + minPayloadThroughputBytesPerSec - 1) / minPayloadThroughputBytesPerSec)
      maxPayloadExtensionSecs
    T.idleTimeout + extra * T.second

/-- The longest that can be. -/
def longestRead : Nat := T.idleTimeout + maxPayloadExtensionSecs * T.second

/-- The tick after one that was due at `tick`: it is delayed if that was missed. -/
def nextTick (tick now : Nat) : Nat :=
  if tick + T.tolerance < now then now + T.keepalivePeriod else tick + T.keepalivePeriod

/-- The longest the writer can be busy with a graceful close. -/
def closing : Nat := (3 * writeTimeoutSecs + 2 * shutdownCommandTimeoutSecs) * T.second + T.flush

theorem readTimeout_le (announcedLen : UInt32) : T.readTimeout announcedLen ≤ T.longestRead := by
  unfold readTimeout longestRead
  split
  · exact Nat.le_add_right _ _
  · exact Nat.add_le_add_left (Nat.mul_le_mul_right _ (Nat.min_le_right _ _)) _

end Timing

/-! ## Frames -/

namespace FrameExpect

/-- The length that is waited for. -/
def announcedLen : FrameExpect → UInt32
  | header announced => announced
  | payload _ len => len

/-- What is expected after a data frame. -/
def next (expect : FrameExpect) (frame : Bytes) : FrameExpect :=
  match expect with
  | header _ =>
    match parseHeader frame with
    | .ok (some hdr) =>
      if hdr.isEstimated then .header hdr.len
      else if hdr.len = 0 then .start
      else .payload hdr.identifier hdr.len
    | _ => expect
  | payload _ _ => .start

/-- The message that a data frame completes. -/
def completes (expect : FrameExpect) (frame : Bytes) : Option (UInt8 × Bytes) :=
  match expect with
  | header _ =>
    match parseHeader frame with
    | .ok (some hdr) => if !hdr.isEstimated && hdr.len = 0 then some (hdr.identifier, []) else none
    | _ => none
  | payload msgType _ => some (msgType, frame)

/-- A header that announces the end of service: the reader returns. -/
def endsService (expect : FrameExpect) (frame : Bytes) : Bool :=
  match expect with
  | header _ =>
    match parseHeader frame with
    | .ok (some hdr) => !hdr.isEstimated && hdr.identifier = MessageType.outOfService.toU8
    | _ => false
  | payload _ _ => false

end FrameExpect

/-- The reader dispatches the message that a frame completes, and expects what
comes next. -/
theorem Reader.onDataFrame_eq {C : Crates} {η : Type} [LoxHandler η] (keys : SessionKeys C) (P : Parsers)
    (frame : Bytes) (s : ReaderState η) (h : s.expect.endsService frame = false) :
    onDataFrame keys P frame s = (do
      (s.expect.completes frame).elim (pure ()) fun message => dispatch keys P message.1 message.2
      setExpect (s.expect.next frame)
      pure none : Rd η (Option ReadOutcome)) s := by
  obtain ⟨expect, handler, shared, out, delivered⟩ := s
  cases expect with
  | payload msgType len => rfl
  | header announced =>
    change onHeader keys P frame _ = _
    simp only [FrameExpect.endsService] at h
    simp only [onHeader, FrameExpect.completes, FrameExpect.next]
    cases hheader : parseHeader frame with
    | error e => rfl
    | ok parsed =>
      cases parsed with
      | none => rfl
      | some hdr =>
        simp only [hheader] at h ⊢
        cases hest : hdr.isEstimated with
        | true => rfl
        | false =>
          rw [hest, Bool.not_false, Bool.true_and, decide_eq_false_iff_not] at h
          simp only [Bool.false_eq_true, if_false, h, Bool.not_false, Bool.true_and, decide_eq_true_eq]
          by_cases hlen : hdr.len = 0
          · simp only [hlen, if_true]
            rfl
          · simp only [hlen, if_false]
            rfl

/-! ## The tasks -/

/-- Where `session_once` is, and since when. -/
inductive Phase
  | reading (expect : FrameExpect) (since : Nat)
  /-- The reader has resolved an answer, and may have to send to the writer. -/
  | working (expect : FrameExpect) (since : Nat)
  /-- The reader has returned, and `Shutdown` is sent. -/
  | sending (since : Nat)
  | joining (since : Nat)
  /-- The session is over; the writer has handed the command channel back, or not. -/
  | ended (handedBack : Bool)

structure Clocked (σ : Type) where
  session : Session σ
  /-- Since when the writer is where it is. -/
  since : Nat
  /-- When the next keepalive is due, and when the writer stops waiting. -/
  tick : Nat
  expiry : Nat
  /-- Whether the reader's channel held something when the writer began to wait:
  the `select!` takes from it first. -/
  outFirst : Bool
  phase : Phase
  /-- When the last frame came. -/
  heard : Nat

/-- The steps of the writer. -/
def Session.Label.isWriter : Session.Label → Bool
  | .takeOut _ | .takeCommand _ | .keepaliveTick _ | .timer | .written | .writeFailed _ | .expire _
  | .gracefulClose _ | .answered _ | .waitElapsed | .finish => true
  | _ => false

/-- The clock reading of a step. -/
def Session.Label.instant : Session.Label → Option Nat
  | .takeOut now | .takeCommand now | .keepaliveTick now | .expire now | .gracefulClose now | .answered now => some now
  | _ => none

theorem Session.Label.instant_eq_none {l : Session.Label} (h : l.isWriter = false) : l.instant = none := by
  cases l <;> first | rfl | cases h

namespace Clocked

variable {C : Crates} {σ : Type} [TokenStore σ] (env : WriterEnv C) (P : Parsers) (T : Timing)

/-- An established session. -/
def init (now : Nat) (salt : SaltState) (pos : Pos) (shared : SharedState σ) : Clocked σ where
  session := .init salt pos shared
  since := now
  tick := now + T.keepalivePeriod
  expiry := now + 3600 * T.second
  outFirst := false
  phase := .reading .start now
  heard := now

inductive Label
  /-- The callers, the writer, and the reader's work on an answer. -/
  | session (l : Session.Label)
  | frame (data : Bytes)
  /-- A frame without data. -/
  | control
  | returned (outcome : ReadOutcome)
  | shutdown
  | joined
  | joinFailed

/-- A message to the writer has to wait. -/
def full (s : Clocked σ) : Bool := !s.session.pc.isDone && writerChannelDepth ≤ s.session.out.length

/-- The reader is about to send to the writer. -/
def sends (s : Clocked σ) : Bool :=
  match s.session.reader with
  | .flushing (_ :: _) _ _ _ => true
  | _ => false

/-- Whether a step of the session can be taken now. -/
def may (now : Nat) (s : Clocked σ) : Session.Label → Bool
  | .sendCommand _ | .enqueue _ | .written | .writeFailed _ | .finish => true
  | .takeOut t | .expire t | .gracefulClose t | .answered t => t = now
  | .takeCommand t => t = now && !s.outFirst
  | .keepaliveTick t => t = now && !s.outFirst && s.tick ≤ now
  | .timer => !s.outFirst && s.expiry ≤ now
  | .waitElapsed => s.since + shutdownCommandTimeoutSecs * T.second ≤ now
  | .obligated _ _ =>
    match s.phase with
    | .reading _ _ => !s.session.pc.isDone && !s.full
    | _ => false
  | .release | .complete =>
    match s.phase with
    | .working _ _ => true
    | _ => false
  | .flush =>
    match s.phase with
    | .working _ _ => !s.full
    | _ => false
  | .shutdown | .serve _ | .keepaliveAck | .resolve => false

/-- After a step of the session: the writer begins a wait, or goes on with the
one it is in. -/
def after (now : Nat) (l : Session.Label) (s : Clocked σ) (session : Session σ) : Clocked σ where
  session := session
  since := if l.isWriter then now else s.since
  tick := match l with
    | .keepaliveTick _ => T.nextTick s.tick now
    | _ => s.tick
  expiry := match l with
    | .expire _ => session.writer.pending.nextDeadline.getD (now + 3600 * T.second)
    | _ => s.expiry
  outFirst := match l with
    | .expire _ => !session.out.isEmpty
    | _ => s.outFirst
  phase := match l, s.phase with
    | .complete, .working expect _ => .reading expect now
    | _, phase => phase
  heard := s.heard

/-- A message has come. -/
def dispatch (now : Nat) (expect : FrameExpect) (msgType : UInt8) (payload : Bytes) (s : Clocked σ) :
    Option (Clocked σ) :=
  match MessageType.fromU8 msgType with
  | some .text =>
    (Session.step env P { s.session with answers := s.session.answers ++ [payload] } .resolve).map fun session =>
      { s with
        session
        phase := match session.reader with
          | .idle => .reading expect now
          | _ => .working expect now }
  | some .keepalive => (Session.step env P s.session .keepaliveAck).map fun session => { s with session }
  | _ => some s

def act (now : Nat) (s : Clocked σ) : Label → Option (Clocked σ)
  | .session l =>
    if s.may T now l then (Session.step env P s.session l).map (s.after T now l) else none
  | .frame data =>
    match s.phase with
    | .reading expect _ =>
      let s := { s with phase := .reading (expect.next data) now, heard := now }
      match expect.completes data with
      | some (msgType, payload) => dispatch env P now (expect.next data) msgType payload s
      | none => some s
    | _ => none
  | .control =>
    match s.phase with
    | .reading expect _ => some { s with phase := .reading expect now, heard := now }
    | _ => none
  | .returned outcome =>
    match s.phase with
    | .reading expect since =>
      if outcome = .idleTimeout → since + T.readTimeout expect.announcedLen ≤ now then
        some { s with phase := .sending now }
      else none
    | _ => none
  | .shutdown =>
    match s.phase with
    | .sending _ =>
      -- a writer that is gone does not get the message
      if s.session.pc.isDone then some { s with phase := .joining now }
      else if s.full then none
      else (Session.step env P s.session .shutdown).map fun session => { s with session, phase := .joining now }
    | _ => none
  | .joined =>
    match s.phase with
    | .joining _ => if s.session.pc.isDone then some { s with phase := .ended true } else none
    | _ => none
  | .joinFailed =>
    match s.phase with
    | .joining since =>
      if !s.session.pc.isDone && since + shutdownJoinTimeoutSecs * T.second ≤ now then
        some { s with phase := .ended false }
      else none
    | _ => none

/-- When the writer goes on at the latest. -/
def writerDue (s : Clocked σ) : List Nat :=
  match s.session.pc with
  | .select => if s.session.out.isEmpty && s.session.commands.isEmpty then [s.tick, s.expiry] else [0]
  | .writeText _ | .writeControl _ _ | .request _ _ _ => [s.since + writeTimeoutSecs * T.second]
  | .expirePending | .gracefulClose | .finish => [0]
  | .await _ waiter =>
    if (s.session.answerTo waiter).isSome then [0] else [s.since + shutdownCommandTimeoutSecs * T.second]
  -- the close frame is given up like any other, and the flush comes after it
  | .writeClose => [s.since + writeTimeoutSecs * T.second + T.flush]
  | .done => []

/-- When `session_once` goes on at the latest. -/
def taskDue (s : Clocked σ) : List Nat :=
  match s.phase with
  -- the end of the writer aborts the read
  | .reading expect since => if s.session.pc.isDone then [0] else [since + T.readTimeout expect.announcedLen]
  | .working _ _ => if s.sends && s.full then [] else [0]
  | .sending _ => if s.full then [] else [0]
  | .joining since => if s.session.pc.isDone then [0] else [since + shutdownJoinTimeoutSecs * T.second]
  | .ended _ => []

/-- The session as a system on a clock. -/
def clockwork : Clockwork (Clocked σ) Label where
  act now s l := s.act env P T now l
  due s := s.writerDue T ++ s.taskDue T

end Clocked

/-! ## The writer's moves -/

namespace WriterPc

/-- Where the writer goes from where. -/
inductive Moves : WriterPc → WriterPc → Prop
  | decided (o : Outgoing) : Moves .select (Writer.next o)
  | written {pc : WriterPc} (h : pc.inLoop = true) : Moves pc .expirePending
  | failed {pc : WriterPc} (h : pc.inLoop = true) : Moves pc .finish
  | expired : Moves .expirePending .select
  | keeps : Moves .gracefulClose .writeClose
  | getkey (token : LxToken) (waiter : Waiter) (text : Str) :
      Moves .gracefulClose (.request (.getkey token) waiter text)
  | requested (kill : KillStep) (waiter : Waiter) (text : Str) : Moves (.request kill waiter text) (.await kill waiter)
  | unsent (kill : KillStep) (waiter : Waiter) (text : Str) : Moves (.request kill waiter text) .writeClose
  | killtoken (token : LxToken) (waiter waiter' : Waiter) (text : Str) :
      Moves (.await (.getkey token) waiter) (.request .killtoken waiter' text)
  | killed (kill : KillStep) (waiter : Waiter) : Moves (.await kill waiter) .writeClose
  | closed : Moves .writeClose .finish
  | finished : Moves .finish .done

theorem Moves.to_select {pc : WriterPc} (h : Moves pc .select) : pc = .expirePending := by
  generalize hselect : WriterPc.select = pc' at h
  cases h with
  | decided o => cases o <;> cases hselect
  | expired => rfl
  | _ => cases hselect

theorem Moves.ne_done {pc pc' : WriterPc} (h : Moves pc pc') : pc ≠ .done := by
  cases h with
  | written h | failed h =>
    rintro rfl
    cases h
  | _ => nofun

theorem Moves.to_done {pc : WriterPc} (h : Moves pc .done) : pc = .finish := by
  generalize hdone : WriterPc.done = pc' at h
  cases h with
  | decided o => cases o <;> cases hdone
  | finished => rfl
  | _ => cases hdone

end WriterPc

namespace Timing

variable (T : Timing)

/-- How late the writer can be when it comes somewhere. -/
def late : WriterPc → Nat
  | .select | .writeText _ | .writeControl _ _ | .gracefulClose | .request (.getkey _) _ _ => 0
  | .expirePending | .await (.getkey _) _ => writeTimeoutSecs * T.second
  | .request .killtoken _ _ => (writeTimeoutSecs + shutdownCommandTimeoutSecs) * T.second
  | .await .killtoken _ => (2 * writeTimeoutSecs + shutdownCommandTimeoutSecs) * T.second
  | .writeClose => (2 * writeTimeoutSecs + 2 * shutdownCommandTimeoutSecs) * T.second
  | .finish | .done => T.closing

/-- How long it can be there, unless it waits for something to do. -/
def stay : WriterPc → Nat
  | .select | .expirePending | .gracefulClose | .finish | .done => 0
  | .writeText _ | .writeControl _ _ | .request _ _ _ => writeTimeoutSecs * T.second
  | .await _ _ => shutdownCommandTimeoutSecs * T.second
  | .writeClose => writeTimeoutSecs * T.second + T.flush

theorem late_add_stay_le (pc : WriterPc) : T.late pc + T.stay pc ≤ T.closing := by
  cases pc with
  | request kill waiter text =>
    cases kill <;> simp only [late, stay, closing, writeTimeoutSecs, shutdownCommandTimeoutSecs] <;> omega
  | await kill waiter =>
    cases kill <;> simp only [late, stay, closing, writeTimeoutSecs, shutdownCommandTimeoutSecs] <;> omega
  | _ =>
    simp only [late, stay, closing, writeTimeoutSecs, shutdownCommandTimeoutSecs]
    omega

/-- In the loop it is at most one write late. -/
theorem late_of_inLoop {pc : WriterPc} (h : pc.inLoop = true) :
    T.late pc = 0 ∧ T.stay pc = writeTimeoutSecs * T.second := by
  cases pc with
  | writeText text => exact ⟨rfl, rfl⟩
  | writeControl opcode payload => exact ⟨rfl, rfl⟩
  | _ => cases h

/-- A move does not make it later than the place it leads to allows. -/
theorem late_of_moves {pc pc' : WriterPc} (h : WriterPc.Moves pc pc') (hpc : pc ≠ .select) (hpc' : pc' ≠ .select) :
    T.late pc + T.stay pc ≤ T.late pc' := by
  cases h with
  | decided o => exact absurd rfl hpc
  | written h =>
    rw [(T.late_of_inLoop h).1, (T.late_of_inLoop h).2]
    exact Nat.le_of_eq (Nat.zero_add _)
  | failed h => exact T.late_add_stay_le pc
  | expired => exact absurd rfl hpc'
  | closed => exact T.late_add_stay_le _
  | finished => exact T.late_add_stay_le _
  | requested kill waiter text =>
    cases kill <;> simp only [late, stay, writeTimeoutSecs, shutdownCommandTimeoutSecs] <;> omega
  | unsent kill waiter text =>
    cases kill <;> simp only [late, stay, writeTimeoutSecs, shutdownCommandTimeoutSecs] <;> omega
  | killed kill waiter =>
    cases kill <;> simp only [late, stay, writeTimeoutSecs, shutdownCommandTimeoutSecs] <;> omega
  | _ =>
    simp only [late, stay, writeTimeoutSecs, shutdownCommandTimeoutSecs]
    omega

end Timing

/-! ## What a step does to the waiters -/

namespace Writer

variable {C : Crates} (env : WriterEnv C) (now : Nat)

/-- A decision pushes at most one entry, which is due after the timeout, and has
nothing to do with the keepalives. -/
structure Adds (w w' : WriterState) : Prop where
  entries : ∃ new : Option PendingEntry, w'.pending.entries = w.pending.entries ++ new.toList ∧
    ∀ e ∈ new, e.deadline = now + env.cfg.commandTimeout
  liveness : w'.liveness = w.liveness

theorem Adds.nothing {w w' : WriterState} (hp : w'.pending = w.pending) (hl : w'.liveness = w.liveness) :
    Adds env now w w' :=
  ⟨⟨none, by rw [hp]; exact (List.append_nil _).symm, nofun⟩, hl⟩

theorem prepareCommand_adds (cmd : Str) (resp : Option Waiter) (w : WriterState) :
    Adds env now w (prepareCommand env now cmd resp w).2 := by
  unfold prepareCommand
  split
  · refine ⟨⟨some _, rfl, fun e he => ?_⟩, rfl⟩
    cases he
    rfl
  · exact .nothing env now rfl rfl

theorem onWriterMsg_adds (msg : WriterMsg) (w : WriterState) : Adds env now w (onWriterMsg env now msg w).2 := by
  cases msg with
  | command cmd resp => exact prepareCommand_adds env now cmd resp w
  | _ => exact .nothing env now rfl rfl

theorem onIoCommand_adds (cmd : IoCommand) (w : WriterState) : Adds env now w (onIoCommand env now cmd w).2 := by
  cases cmd with
  | encrypted cmd resp =>
    simp only [onIoCommand]
    split
    · exact .nothing env now rfl rfl
    · exact prepareCommand_adds env now cmd (some resp) w
  | control uuid value => exact prepareCommand_adds env now _ none w
  | visuControl uuid value visuPw =>
    have hadds := prepareCommand_adds env now (cmdGetVisuSalt env.cfg.username) none
      { w with visu := w.visu.push ⟨uuid, value, visuPw⟩ }
    exact ⟨hadds.entries, hadds.liveness⟩
  | _ => exact .nothing env now rfl rfl

end Writer

namespace Session

variable {C : Crates} {σ : Type} [TokenStore σ] (env : WriterEnv C) (P : Parsers)

theorem request_moves (now : Nat) (kill : KillStep) (cmd : Str) (s : Session σ) :
    (request env now kill cmd s).pc = .writeClose ∨
      ∃ waiter text, (request env now kill cmd s).pc = .request kill waiter text := by
  unfold request
  dsimp only
  split
  · exact .inr ⟨_, _, rfl⟩
  · exact .inl rfl

theorem request_adds (now : Nat) (kill : KillStep) (cmd : Str) (s : Session σ) :
    Writer.Adds env now s.writer (request env now kill cmd s).writer := by
  have hadds := Writer.prepareCommand_adds env now cmd (some s.waiters.length) s.writer
  unfold request
  dsimp only
  split
  all_goals
    rename_i heq
    rw [heq] at hadds
    exact hadds

theorem request_out (now : Nat) (kill : KillStep) (cmd : Str) (s : Session σ) :
    (request env now kill cmd s).out = s.out := by
  unfold request
  dsimp only
  split
  · rfl
  · rfl

/-- The writer's steps move it, and the others leave it where it is. -/
theorem step_moves {s s' : Session σ} {l : Label} (h : step env P s l = some s') :
    if l.isWriter then WriterPc.Moves s.pc s'.pc else s'.pc = s.pc := by
  cases l with
  | takeOut now =>
    obtain ⟨msg, out, hpc, -, rfl⟩ := step_takeOut_inv env P h
    rw [hpc]
    exact .decided _
  | takeCommand now =>
    obtain ⟨c, commands, hpc, -, rfl⟩ := step_takeCommand_inv env P h
    rw [hpc]
    exact .decided _
  | keepaliveTick now =>
    obtain ⟨hpc, rfl⟩ := step_keepaliveTick_inv env P h
    rw [hpc]
    exact .decided _
  | gracefulClose now =>
    obtain ⟨hpc, hs'⟩ := step_gracefulClose_inv env P h
    rw [hpc]
    rcases hs' with rfl | rfl | rfl
    · exact .keeps
    · exact .keeps
    · rcases request_moves env now (.getkey s.shared.token) cmdGetKey s with hr | ⟨waiter, text, hr⟩
      · rw [hr]
        exact .keeps
      · rw [hr]
        exact .getkey _ _ _
  | answered now =>
    obtain ⟨kill, waiter, hpc, hs'⟩ := step_answered_inv env P h
    rw [hpc]
    rcases hs' with rfl | ⟨token, hash, rfl, rfl⟩
    · exact .killed _ _
    · rcases request_moves env now .killtoken (cmdKillToken hash env.cfg.username) s with hr | ⟨waiter', text, hr⟩
      · rw [hr]
        exact .killed _ _
      · rw [hr]
        exact .killtoken _ _ _ _
  | expire now =>
    obtain ⟨hpc, rfl⟩ := step_expire_inv env P h
    rw [hpc]
    exact .expired
  | finish =>
    obtain ⟨hpc, rfl⟩ := step_finish_inv env P h
    rw [hpc]
    exact .finished
  | timer =>
    simp only [step] at h
    split at h
    · rename_i hpc
      cases h
      rw [hpc]
      exact .decided .idle
    · cases h
  | written =>
    simp only [step] at h
    split at h
    all_goals cases h
    all_goals
      rename_i hpc
      rw [hpc]
    · exact .written rfl
    · exact .written rfl
    · exact .requested _ _ _
    · exact .closed
  | writeFailed arrived =>
    simp only [step] at h
    split at h
    all_goals cases h
    all_goals
      rename_i hpc
      rw [hpc]
    · exact .failed rfl
    · exact .failed rfl
    · exact .unsent _ _ _
    · exact .closed
  | waitElapsed =>
    simp only [step] at h
    split at h
    · rename_i hpc
      cases h
      rw [hpc]
      exact .killed _ _
    · cases h
  -- the others are of the callers, the Miniserver and the reader
  | _ =>
    simp only [step] at h
    repeat' split at h
    all_goals cases h
    all_goals rfl

/-- What is outstanding after a step was so before, or is due after the timeout. -/
def Outstanding (l : Label) (w w' : WriterState) : Prop :=
  ∃ new : Option PendingEntry, w'.pending.entries.Sublist (w.pending.entries ++ new.toList) ∧
    ∀ e ∈ new, ∃ now, l.instant = some now ∧ e.deadline = now + env.cfg.commandTimeout

theorem Outstanding.of_adds {l : Label} {now : Nat} (hl : l.instant = some now) {w w' : WriterState}
    (h : Writer.Adds env now w w') : Outstanding env l w w' := by
  obtain ⟨new, hnew, hdeadline⟩ := h.entries
  exact ⟨new, hnew ▸ List.Sublist.refl _, fun e he => ⟨now, hl, hdeadline e he⟩⟩

theorem Outstanding.of_sublist {l : Label} {w w' : WriterState}
    (h : w'.pending.entries.Sublist w.pending.entries) : Outstanding env l w w' :=
  ⟨none, (List.append_nil w.pending.entries).symm ▸ h, nofun⟩

theorem step_outstanding {s s' : Session σ} {l : Label} (h : step env P s l = some s') :
    Outstanding env l s.writer s'.writer := by
  cases l with
  | takeOut now =>
    obtain ⟨msg, out, -, -, rfl⟩ := step_takeOut_inv env P h
    exact .of_adds env rfl (Writer.onWriterMsg_adds env now msg s.writer)
  | takeCommand now =>
    obtain ⟨c, commands, -, -, rfl⟩ := step_takeCommand_inv env P h
    exact .of_adds env rfl (Writer.onIoCommand_adds env now c s.writer)
  | keepaliveTick now =>
    obtain ⟨-, rfl⟩ := step_keepaliveTick_inv env P h
    refine .of_sublist env ?_
    change (Writer.onKeepaliveTick env now s.writer).2.pending.entries.Sublist _
    unfold Writer.onKeepaliveTick
    split
    · exact List.Sublist.refl _
    · exact List.Sublist.refl _
  | gracefulClose now =>
    obtain ⟨-, rfl | rfl | rfl⟩ := step_gracefulClose_inv env P h
    · exact .of_sublist env (List.Sublist.refl _)
    · exact .of_sublist env (List.Sublist.refl _)
    · exact .of_adds env rfl (request_adds env now _ _ s)
  | answered now =>
    obtain ⟨kill, waiter, -, rfl | ⟨token, hash, -, rfl⟩⟩ := step_answered_inv env P h
    · exact .of_sublist env (List.Sublist.refl _)
    · exact .of_adds env rfl (request_adds env now _ _ s)
  | expire now =>
    obtain ⟨-, rfl⟩ := step_expire_inv env P h
    refine .of_sublist env ?_
    change (s.writer.pending.expire now).2.1.entries.Sublist _
    rw [(PendingQueue.expire_entries s.writer.pending now).2.1]
    exact List.drop_sublist _ _
  | finish =>
    obtain ⟨-, rfl⟩ := step_finish_inv env P h
    exact .of_sublist env (List.nil_sublist _)
  | resolve =>
    obtain ⟨-, payload, -, ⟨pending, -, he, rfl⟩ | ⟨e, rest, r, pending, he, -, -, hrest, rfl⟩⟩ :=
      step_resolve_inv env P h
    · exact .of_sublist env (he ▸ List.Sublist.refl _)
    · refine .of_sublist env ?_
      rw [he]
      exact hrest ▸ List.sublist_cons_self e rest
  | _ =>
    simp only [step] at h
    repeat' split at h
    all_goals cases h
    all_goals exact .of_sublist env (List.Sublist.refl _)

/-- The steps that send to the writer. -/
def Label.isSend : Label → Bool
  | .obligated _ _ | .shutdown | .flush => true
  | _ => false

/-- The channel to the writer grows by what is sent, and shrinks by what the writer
takes. -/
theorem step_out {s s' : Session σ} {l : Label} (h : step env P s l = some s') :
    if l.isSend then ∃ sent, s'.out = s.out ++ sent ∧ sent.length ≤ 1
    else s'.out = s.out ∨ ∃ now msg, l = .takeOut now ∧ s.out = msg :: s'.out := by
  cases l with
  | takeOut now =>
    obtain ⟨msg, out, -, hout, rfl⟩ := step_takeOut_inv env P h
    exact .inr ⟨now, msg, rfl, hout⟩
  | obligated opcode payload =>
    cases h
    exact ⟨[_], rfl, Nat.le_refl _⟩
  | shutdown =>
    cases h
    exact ⟨[_], rfl, Nat.le_refl _⟩
  | flush =>
    obtain ⟨cmd, cmds, resp, payload, answer, -, ⟨-, rfl⟩ | ⟨-, rfl⟩⟩ := step_flush_inv env P h
    · exact ⟨[], (List.append_nil _).symm, Nat.zero_le _⟩
    · exact ⟨[_], rfl, Nat.le_refl _⟩
  | gracefulClose now =>
    obtain ⟨-, rfl | rfl | rfl⟩ := step_gracefulClose_inv env P h
    · exact .inl rfl
    · exact .inl rfl
    · exact .inl (request_out env now _ _ s)
  | answered now =>
    obtain ⟨kill, waiter, -, rfl | ⟨token, hash, -, rfl⟩⟩ := step_answered_inv env P h
    · exact .inl rfl
    · exact .inl (request_out env now _ _ s)
  | _ =>
    simp only [step] at h
    repeat' split at h
    all_goals cases h
    all_goals exact .inl rfl

/-- The commands the reader has to send. -/
def queued (s : Session σ) : List Str :=
  match s.reader with
  | .flushing cmds _ _ _ => cmds
  | _ => []

/-- One secured control is queued, and one command released, at most. -/
structure Single (s : Session σ) : Prop where
  visu : s.writer.visu.length ≤ 1
  queued : s.queued.length ≤ 1

theorem visu_onIoCommand (now : Nat) (cmd : IoCommand) {w : WriterState} (h : w.visu.length ≤ 1) :
    (Writer.onIoCommand env now cmd w).2.visu.length ≤ 1 := by
  cases cmd with
  | encrypted cmd resp =>
    simp only [Writer.onIoCommand]
    split
    · exact h
    · rw [visu_prepareCommand]
      exact h
  | control uuid value =>
    simp only [Writer.onIoCommand]
    rw [visu_prepareCommand]
    exact h
  | visuControl uuid value visuPw =>
    simp only [Writer.onIoCommand]
    rw [visu_prepareCommand]
    simp only [VisuQueue.push, List.length_append, List.length_tail, List.length_singleton]
    omega
  | _ => exact h

theorem step_single {s s' : Session σ} {l : Label} (hs : Single s) (h : step env P s l = some s') : Single s' := by
  cases l with
  | takeCommand now =>
    obtain ⟨c, commands, -, -, rfl⟩ := step_takeCommand_inv env P h
    exact ⟨visu_onIoCommand env now c hs.visu, hs.queued⟩
  | expire now =>
    obtain ⟨-, rfl⟩ := step_expire_inv env P h
    exact ⟨hs.visu, hs.queued⟩
  | finish =>
    obtain ⟨-, rfl⟩ := step_finish_inv env P h
    exact ⟨Nat.zero_le _, hs.queued⟩
  | resolve =>
    obtain ⟨hidle, payload, -, ⟨pending, -, -, rfl⟩ | ⟨e, rest, r, pending, -, -, -, -, rfl⟩⟩ :=
      step_resolve_inv env P h
    · exact ⟨hs.visu, hs.queued⟩
    · exact ⟨hs.visu, Nat.zero_le _⟩
  | release =>
    obtain ⟨r, payload, answer, -, ⟨-, rfl⟩ | ⟨-, rfl⟩⟩ := step_release_inv env P h
    · refine ⟨Nat.zero_le _, ?_⟩
      change (flushVisu P s.writer.visu payload).length ≤ 1
      unfold flushVisu
      split
      · exact Nat.le_trans (List.length_filterMap_le _ _) hs.visu
      · exact Nat.zero_le _
    · exact ⟨hs.visu, Nat.zero_le _⟩
  | flush =>
    obtain ⟨cmd, cmds, resp, payload, answer, hreader, ⟨-, rfl⟩ | ⟨-, rfl⟩⟩ := step_flush_inv env P h
    · exact ⟨hs.visu, Nat.zero_le _⟩
    · have hq := hs.queued
      rw [queued, hreader] at hq
      exact ⟨hs.visu, Nat.le_of_succ_le hq⟩
  | complete =>
    obtain ⟨resp, payload, answer, completed, -, rfl⟩ := step_complete_inv env P h
    exact ⟨hs.visu, Nat.zero_le _⟩
  | _ =>
    have hstill := step_still env P rfl h
    refine ⟨hstill.visu ▸ hs.visu, ?_⟩
    rw [queued, hstill.reader]
    exact hs.queued

/-- The steps of the reader. -/
def Label.isReader : Label → Bool
  | .resolve | .release | .flush | .complete => true
  | _ => false

/-- Only they move it. -/
theorem step_reader {s s' : Session σ} {l : Label} (hl : l.isReader = false) (h : step env P s l = some s') :
    s'.reader = s.reader := by
  cases l with
  | takeCommand now =>
    obtain ⟨c, commands, -, -, rfl⟩ := step_takeCommand_inv env P h
    rfl
  | expire now =>
    obtain ⟨-, rfl⟩ := step_expire_inv env P h
    rfl
  | finish =>
    obtain ⟨-, rfl⟩ := step_finish_inv env P h
    rfl
  | resolve | release | flush | complete => cases hl
  | _ => exact (step_still env P rfl h).reader

/-- A tick sends one keepalive at most, and nothing else sends one. -/
theorem step_sent {s s' : Session σ} {l : Label} (h : step env P s l = some s') :
    s'.writer.liveness.sent = s.writer.liveness.sent ∨
      ∃ now, l = .keepaliveTick now ∧ s'.writer.liveness.sent = s.writer.liveness.sent + 1 := by
  cases l with
  | takeOut now =>
    obtain ⟨msg, out, -, -, rfl⟩ := step_takeOut_inv env P h
    exact .inl (congrArg Liveness.sent (Writer.onWriterMsg_adds env now msg s.writer).liveness)
  | takeCommand now =>
    obtain ⟨c, commands, -, -, rfl⟩ := step_takeCommand_inv env P h
    exact .inl (congrArg Liveness.sent (Writer.onIoCommand_adds env now c s.writer).liveness)
  | keepaliveTick now =>
    obtain ⟨-, rfl⟩ := step_keepaliveTick_inv env P h
    simp only [decided, Writer.onKeepaliveTick]
    split
    · exact .inl rfl
    · exact .inr ⟨now, rfl, rfl⟩
  | gracefulClose now =>
    obtain ⟨-, rfl | rfl | rfl⟩ := step_gracefulClose_inv env P h
    · exact .inl rfl
    · exact .inl rfl
    · exact .inl (congrArg Liveness.sent (request_adds env now _ _ s).liveness)
  | answered now =>
    obtain ⟨kill, waiter, -, rfl | ⟨token, hash, -, rfl⟩⟩ := step_answered_inv env P h
    · exact .inl rfl
    · exact .inl (congrArg Liveness.sent (request_adds env now _ _ s).liveness)
  | _ =>
    simp only [step] at h
    repeat' split at h
    all_goals cases h
    all_goals exact .inl rfl

/-- Only after it has looked for what has expired does the writer wait again. -/
theorem step_select {s s' : Session σ} {l : Label} (h : step env P s l = some s') (hl : l.isWriter = true)
    (hpc : s'.pc = .select) : ∃ now, l = .expire now := by
  have hmoves := step_moves env P h
  rw [if_pos hl, hpc] at hmoves
  have hexp : s.pc = .expirePending := hmoves.to_select
  cases l with
  | expire now => exact ⟨now, rfl⟩
  | _ => first | simp [step, hexp] at h; done | cases hl

/-- The writer is done when it has finished. -/
theorem step_done {s s' : Session σ} {l : Label} (h : step env P s l = some s') (hl : l.isWriter = true)
    (hpc : s'.pc = .done) : l = .finish := by
  have hmoves := step_moves env P h
  rw [if_pos hl, hpc] at hmoves
  have hfin : s.pc = .finish := hmoves.to_done
  cases l with
  | finish => rfl
  | _ => first | simp [step, hfin] at h; done | cases hl

end Session

namespace Clocked

variable {C : Crates} {σ : Type} (env : WriterEnv C) (P : Parsers) (T : Timing)

/-! ## The writer is on time -/

/-- The writer is no later than where it is allows, and waits no longer than for the
first deadline. -/
structure Timely (now : Nat) (s : Clocked σ) : Prop where
  since : s.since ≤ now
  sorted : PendingQueue.Sorted s.session.writer.pending.entries
  ahead : ∀ e ∈ s.session.writer.pending.entries, now + env.cfg.commandTimeout ≥ e.deadline
  waits : s.session.pc = .select →
    now ≤ s.expiry ∧ ∀ e ∈ s.session.writer.pending.entries, s.expiry ≤ e.deadline
  stays : s.session.pc ≠ .select → s.session.pc ≠ .done → now ≤ s.since + T.stay s.session.pc
  late : s.session.pc ≠ .select →
    ∀ e ∈ s.session.writer.pending.entries, s.since ≤ e.deadline + T.late s.session.pc
  done : s.session.pc = .done → s.session.writer.pending.entries = []

variable {env T} {now : Nat} {s : Clocked σ}

/-- So nothing outstanding is later than the longest close. -/
theorem Timely.now_le (h : Timely env T now s) {e : PendingEntry} (he : e ∈ s.session.writer.pending.entries) :
    now ≤ e.deadline + (T.late s.session.pc + T.stay s.session.pc) := by
  by_cases hpc : s.session.pc = .select
  · obtain ⟨hnow, hexpiry⟩ := h.waits hpc
    have := hexpiry e he
    omega
  · have hdone : s.session.pc ≠ .done := fun hd => List.not_mem_nil (h.done hd ▸ he)
    have hstay := h.stays hpc hdone
    have hlate := h.late hpc e he
    omega

theorem writerDue_stay {later : Nat} (hdue : ∀ t ∈ s.writerDue T, later ≤ t) (hpc : s.session.pc ≠ .select)
    (hdone : s.session.pc ≠ .done) : later ≤ s.since + T.stay s.session.pc := by
  unfold writerDue at hdue
  cases h : s.session.pc with
  | select => exact absurd h hpc
  | done => exact absurd h hdone
  | await kill waiter =>
    rw [h] at hdue
    dsimp only at hdue
    split at hdue
    · have := hdue _ List.mem_cons_self
      exact Nat.le_trans this (Nat.zero_le _)
    · exact hdue _ List.mem_cons_self
  | writeClose =>
    rw [h] at hdue
    exact Nat.le_trans (hdue _ List.mem_cons_self) (Nat.le_of_eq (Nat.add_assoc _ _ _))
  | _ =>
    rw [h] at hdue
    exact Nat.le_trans (hdue _ List.mem_cons_self) (by simp [Timing.stay])

/-- While the writer waits and has something to do, no time passes. -/
theorem writerDue_select {later : Nat} (hdue : ∀ t ∈ s.writerDue T, later ≤ t) (hpc : s.session.pc = .select)
    (hlater : 0 < later) : s.session.out = [] ∧ later ≤ s.expiry := by
  unfold writerDue at hdue
  rw [hpc] at hdue
  dsimp only at hdue
  split at hdue
  · rename_i hempty
    rw [Bool.and_eq_true, List.isEmpty_iff] at hempty
    exact ⟨hempty.1, hdue _ (List.mem_cons_of_mem _ List.mem_cons_self)⟩
  · have := hdue _ List.mem_cons_self
    omega

theorem Timely.later (h : Timely env T now s) {later : Nat} (hlt : now < later)
    (hdue : ∀ t ∈ s.writerDue T, later ≤ t) : Timely env T later s where
  since := Nat.le_trans h.since (Nat.le_of_lt hlt)
  sorted := h.sorted
  ahead e he := by
    have := h.ahead e he
    omega
  waits hpc := ⟨(writerDue_select hdue hpc (Nat.zero_lt_of_lt hlt)).2, (h.waits hpc).2⟩
  stays hpc hdone := writerDue_stay hdue hpc hdone
  late := h.late
  done := h.done

/-- Others take entries off the queue, and leave the writer where it is. -/
theorem Timely.other (h : Timely env T now s) {s' : Clocked σ} (hpc : s'.session.pc = s.session.pc)
    (hentries : s'.session.writer.pending.entries.Sublist s.session.writer.pending.entries)
    (hsince : s'.since = s.since) (hexpiry : s'.expiry = s.expiry) : Timely env T now s' where
  since := hsince ▸ h.since
  sorted := h.sorted.sublist hentries
  ahead e he := h.ahead e (hentries.subset he)
  waits hs := by
    rw [hexpiry]
    exact ⟨(h.waits (hpc ▸ hs)).1, fun e he => (h.waits (hpc ▸ hs)).2 e (hentries.subset he)⟩
  stays hs hd := by
    rw [hsince, hpc]
    exact h.stays (hpc ▸ hs) (hpc ▸ hd)
  late hs e he := by
    rw [hsince, hpc]
    exact h.late (hpc ▸ hs) e (hentries.subset he)
  done hd := List.sublist_nil.mp (h.done (hpc ▸ hd) ▸ hentries)

section

variable [TokenStore σ] {P} {l : Session.Label} {session : Session σ}

omit [TokenStore σ] in
/-- The clock reading of a step is the present. -/
theorem instant_of_may (hmay : s.may T now l = true) {t : Nat} (ht : l.instant = some t) : t = now := by
  cases l with
  | takeOut t' | expire t' | gracefulClose t' | answered t' =>
    cases ht
    exact of_decide_eq_true hmay
  | takeCommand t' =>
    cases ht
    exact of_decide_eq_true (Bool.and_eq_true _ _ ▸ hmay).1
  | keepaliveTick t' =>
    cases ht
    simp only [may, Bool.and_eq_true, decide_eq_true_eq] at hmay
    exact hmay.1.1
  | _ => cases ht

/-- What a step adds to the queue is due after the timeout. -/
theorem entries_of_may (hmay : s.may T now l = true) (hstep : Session.step env P s.session l = some session) :
    ∃ new : Option PendingEntry,
      session.writer.pending.entries.Sublist (s.session.writer.pending.entries ++ new.toList) ∧
      (∀ e ∈ new, e.deadline = now + env.cfg.commandTimeout) ∧ (l.isWriter = false → new = none) := by
  obtain ⟨new, hsub, hnew⟩ := Session.step_outstanding env P hstep
  refine ⟨new, hsub, fun e he => ?_, fun hl => ?_⟩
  · obtain ⟨t, ht, hdeadline⟩ := hnew e he
    rw [hdeadline, instant_of_may hmay ht]
  · refine Option.eq_none_iff_forall_not_mem.mpr fun e he => ?_
    obtain ⟨t, ht, -⟩ := hnew e he
    rw [Session.Label.instant_eq_none hl] at ht
    cases ht

/-- The writer has looked for what has expired, and waits for the next deadline. -/
theorem Timely.expire (h : Timely env T now s) {t : Nat} (ht : t = now)
    (hstep : Session.step env P s.session (.expire t) = some session) :
    Timely env T now (s.after T now (.expire t) session) := by
  subst ht
  obtain ⟨hpc, rfl⟩ := Session.step_expire_inv env P hstep
  have hleft : (s.session.writer.pending.expire t).2.1.entries =
      s.session.writer.pending.entries.filter (t < ·.deadline) := (PendingQueue.expireLoop_sorted t h.sorted).2
  have hsub : (s.session.writer.pending.expire t).2.1.entries.Sublist s.session.writer.pending.entries := by
    rw [hleft]
    exact List.filter_sublist
  have hsorted : PendingQueue.Sorted (s.session.writer.pending.expire t).2.1.entries := h.sorted.sublist hsub
  refine ⟨Nat.le_refl _, hsorted, fun e he => h.ahead e (hsub.subset he), fun _ => ?_,
    fun hne => absurd rfl hne, fun hne => absurd rfl hne, nofun⟩
  change t ≤ ((s.session.writer.pending.expire t).2.1.nextDeadline.getD _) ∧
    ∀ e ∈ (s.session.writer.pending.expire t).2.1.entries,
      (s.session.writer.pending.expire t).2.1.nextDeadline.getD _ ≤ e.deadline
  have hlater : ∀ e ∈ (s.session.writer.pending.expire t).2.1.entries, t < e.deadline := by
    intro e he
    rw [hleft] at he
    exact of_decide_eq_true (List.mem_filter.mp he).2
  revert hsorted hlater
  generalize (s.session.writer.pending.expire t).2.1 = q
  intro hsorted hlater
  unfold PendingQueue.nextDeadline
  cases hq : q.entries with
  | nil => exact ⟨Nat.le_add_right _ _, nofun⟩
  | cons front rest =>
    rw [hq] at hsorted hlater
    refine ⟨Nat.le_of_lt (hlater front List.mem_cons_self), fun e he => ?_⟩
    rcases List.mem_cons.mp he with rfl | he
    · exact Nat.le_refl _
    · exact (List.pairwise_cons.mp hsorted).1 e he

/-- The writer has gone somewhere else. -/
theorem Timely.moved (h : Timely env T now s) (hl : l.isWriter = true) (hne : session.pc ≠ .select)
    (hmay : s.may T now l = true) (hstep : Session.step env P s.session l = some session) :
    Timely env T now (s.after T now l session) := by
  have hmoves := Session.step_moves env P hstep
  rw [if_pos hl] at hmoves
  obtain ⟨new, hsub, hnew, -⟩ := entries_of_may hmay hstep
  have hsince : (s.after T now l session).since = now := if_pos hl
  -- an entry was there before, or is new
  have hmem : ∀ e ∈ session.writer.pending.entries,
      e ∈ s.session.writer.pending.entries ∨ now + env.cfg.commandTimeout = e.deadline := by
    intro e he
    rcases List.mem_append.mp (hsub.subset he) with he | he
    · exact .inl he
    · exact .inr (hnew e (Option.mem_toList.mp he)).symm
  refine ⟨Nat.le_of_eq hsince, ?_, fun e he => ?_, fun hs => absurd hs hne, fun _ _ => ?_, fun _ e he => ?_,
    fun hdone => ?_⟩
  · refine List.Pairwise.sublist hsub (List.pairwise_append.mpr ⟨h.sorted, ?_, fun e he e' he' => ?_⟩)
    · cases new with
      | none => exact List.Pairwise.nil
      | some e => exact List.pairwise_singleton _ _
    · rw [hnew e' (Option.mem_toList.mp he')]
      exact h.ahead e he
  · rcases hmem e he with he | he
    · exact h.ahead e he
    · exact Nat.le_of_eq he.symm
  · rw [hsince]
    exact Nat.le_add_right _ _
  · rw [hsince]
    rcases hmem e he with he | he
    · have hnow := h.now_le he
      by_cases hpc : s.session.pc = .select
      · exact Nat.le_trans (h.waits hpc).1 (Nat.le_trans ((h.waits hpc).2 e he) (Nat.le_add_right _ _))
      · have hlate := T.late_of_moves hmoves hpc hne
        change now ≤ e.deadline + T.late session.pc
        omega
    · omega
  · cases Session.step_done env P hstep hl hdone
    obtain ⟨-, rfl⟩ := Session.step_finish_inv env P hstep
    rfl

omit [TokenStore σ] in
theorem waits_after (hl : ∀ t, l ≠ .expire t) (session : Session σ) :
    (s.after T now l session).expiry = s.expiry ∧ (s.after T now l session).outFirst = s.outFirst := by
  cases l with
  | expire t => exact absurd rfl (hl t)
  | _ => exact ⟨rfl, rfl⟩

theorem Timely.step (h : Timely env T now s) (hmay : s.may T now l = true)
    (hstep : Session.step env P s.session l = some session) : Timely env T now (s.after T now l session) := by
  cases hl : l.isWriter with
  | false =>
    have hpc := Session.step_moves env P hstep
    rw [hl, if_neg Bool.false_ne_true] at hpc
    obtain ⟨new, hsub, -, hnew⟩ := entries_of_may hmay hstep
    rw [hnew hl, Option.toList_none, List.append_nil] at hsub
    have hexpire : ∀ t, l ≠ .expire t := by
      rintro t rfl
      cases hl
    exact h.other hpc hsub (if_neg (hl ▸ Bool.false_ne_true)) (waits_after hexpire session).1
  | true =>
    by_cases hselect : session.pc = .select
    · obtain ⟨t, rfl⟩ := Session.step_select env P hstep hl hselect
      exact h.expire (instant_of_may hmay rfl) hstep
    · exact h.moved hl hselect hmay hstep

end

/-! ## Room for the reader's messages -/

/-- Since `b` the reader's task has waited for room, if there is none: the writer has
not been free since, or takes from the reader's channel next. -/
def Held (T : Timing) (b now : Nat) (s : Clocked σ) : Prop :=
  s.full = true → now = b ∨ (s.session.pc ≠ .select → s.since ≤ b + T.late s.session.pc) ∧
    (s.session.pc = .select → s.outFirst = true)

theorem full_iff : s.full = true ↔ s.session.pc ≠ .done ∧ writerChannelDepth ≤ s.session.out.length := by
  unfold full
  cases s.session.pc <;> simp [WriterPc.isDone]

theorem Held.later {b later : Nat} (h : Held T b now s) (ht : Timely env T now s) (hlt : now < later)
    (hdue : ∀ t ∈ s.writerDue T, later ≤ t) (hfull : s.full = true) :
    Held T b later s ∧ later ≤ b + T.closing := by
  obtain ⟨hdone, hout⟩ := full_iff.mp hfull
  have hpc : s.session.pc ≠ .select := by
    intro hpc
    rw [(writerDue_select hdue hpc (Nat.zero_lt_of_lt hlt)).1] at hout
    cases hout
  have hsince : s.since ≤ b + T.late s.session.pc := by
    rcases h hfull with rfl | ⟨hsince, -⟩
    · exact Nat.le_trans ht.since (Nat.le_add_right _ _)
    · exact hsince hpc
  have hstay := writerDue_stay hdue hpc hdone
  have hclosing := T.late_add_stay_le s.session.pc
  exact ⟨fun _ => .inr ⟨fun _ => hsince, fun hs => absurd hs hpc⟩, by omega⟩

section

variable [TokenStore σ] {P} {l : Session.Label} {session : Session σ}

/-- The writer, or a caller, does something else than to take from the full channel. -/
theorem Held.step {b : Nat} (h : Held T b now s) (ht : Timely env T now s)
    (hroom : s.session.out.length ≤ writerChannelDepth) (hmay : s.may T now l = true) (hsend : l.isSend = false)
    (hstep : Session.step env P s.session l = some session) : Held T b now (s.after T now l session) := by
  intro hfull
  obtain ⟨hdone', hout'⟩ : session.pc ≠ .done ∧ writerChannelDepth ≤ session.out.length := full_iff.mp hfull
  have hout := Session.step_out env P hstep
  rw [hsend, if_neg Bool.false_ne_true] at hout
  rcases hout with hout | ⟨t, msg, rfl, hout⟩
  swap
  · -- there is room
    have hlt : session.out.length < s.session.out.length := by
      rw [hout]
      exact Nat.lt_succ_self _
    exact absurd (Nat.lt_of_lt_of_le hlt hroom) (Nat.not_lt.mpr hout')
  have hdone : s.session.pc ≠ .done := by
    intro hd
    have hmoves := Session.step_moves env P hstep
    split_ifs at hmoves
    · exact hmoves.ne_done hd
    · exact hdone' (hmoves.trans hd)
  have hlen : writerChannelDepth ≤ s.session.out.length := hout ▸ hout'
  rcases h (full_iff.mpr ⟨hdone, hlen⟩) with rfl | ⟨hsince, hfirst⟩
  · exact .inl rfl
  right
  cases hl : l.isWriter with
  | false =>
    have hpc := Session.step_moves env P hstep
    rw [hl, if_neg Bool.false_ne_true] at hpc
    have hexpire : ∀ t, l ≠ .expire t := by
      rintro t rfl
      cases hl
    have hsame : (s.after T now l session).since = s.since := if_neg (hl ▸ Bool.false_ne_true)
    rw [hsame, (waits_after hexpire session).2]
    change (session.pc ≠ .select → s.since ≤ b + T.late session.pc) ∧ (session.pc = .select → s.outFirst = true)
    rw [hpc]
    exact ⟨hsince, hfirst⟩
  | true =>
    have hmoves := Session.step_moves env P hstep
    rw [if_pos hl] at hmoves
    have hsame : (s.after T now l session).since = now := if_pos hl
    have hpc : s.session.pc ≠ .select := by
      intro hpc
      -- the select takes from the reader's channel first
      have hf := hfirst hpc
      cases l with
      | takeOut t =>
        obtain ⟨msg, out, -, hcons, rfl⟩ := Session.step_takeOut_inv env P hstep
        rw [hcons] at hout
        exact absurd (congrArg List.length hout) (Nat.ne_of_lt (Nat.lt_succ_self _))
      | takeCommand t => simp [may, hf] at hmay
      | keepaliveTick t => simp [may, hf] at hmay
      | timer => simp [may, hf] at hmay
      | _ => first | simp [Session.step, hpc] at hstep; done | cases hl
    have hstay := ht.stays hpc hdone
    refine ⟨fun hne => ?_, fun hselect => ?_⟩
    · have hlate := T.late_of_moves hmoves hpc hne
      have := hsince hpc
      rw [hsame]
      change now ≤ b + T.late session.pc
      omega
    · obtain ⟨t, rfl⟩ := Session.step_select env P hstep hl hselect
      change (!session.out.isEmpty) = true
      rw [Bool.not_eq_true', List.isEmpty_eq_false_iff]
      rintro hnil
      rw [hnil] at hout'
      cases hout'

end

/-! ## The session is on time -/

/-- `session_once` is no later than where it is allows. -/
def Task (T : Timing) (now : Nat) (s : Clocked σ) : Prop :=
  match s.phase with
  | .reading expect since => since ≤ s.heard + T.closing ∧ now ≤ since + T.readTimeout expect.announcedLen
  | .working _ since => since = s.heard ∧ now ≤ since + T.closing ∧
      (∀ r payload answer, s.session.reader = .resolved r payload answer → now = since) ∧
      (s.sends = true → Held T since now s)
  | .sending since => since ≤ s.heard + T.closing + T.longestRead ∧ now ≤ since + T.closing ∧ Held T since now s
  | .joining since => since ≤ s.heard + 2 * T.closing + T.longestRead ∧
      now ≤ since + shutdownJoinTimeoutSecs * T.second
  | .ended _ => True

variable (env T) in
structure Inv (start now : Nat) (s : Clocked σ) : Prop where
  timely : Timely env T now s
  room : s.session.out.length ≤ writerChannelDepth
  single : s.session.Single
  task : Task T now s
  tick : start + (s.session.writer.liveness.sent + 1) * T.keepalivePeriod ≤ s.tick
  sent : start + s.session.writer.liveness.sent * T.keepalivePeriod ≤ now
  /-- What the writer has to take first is there. -/
  first : s.session.pc = .select → s.outFirst = true → s.session.out ≠ []
  busy : ∀ expect since, s.phase = .working expect since → s.session.reader ≠ .idle

theorem inv_init (start : Nat) (salt : SaltState) (pos : Pos) (shared : SharedState σ) :
    Inv env T start start (init T start salt pos shared) where
  timely := ⟨Nat.le_refl _, List.Pairwise.nil, nofun, fun _ => ⟨Nat.le_add_right _ _, nofun⟩,
    fun hne => absurd rfl hne, fun hne => absurd rfl hne, nofun⟩
  room := Nat.zero_le _
  single := ⟨Nat.zero_le _, Nat.zero_le _⟩
  task := ⟨Nat.le_add_right _ _, Nat.le_add_right _ _⟩
  tick := by
    change start + (0 + 1) * T.keepalivePeriod ≤ start + T.keepalivePeriod
    omega
  sent := by
    change start + 0 * T.keepalivePeriod ≤ start
    omega
  first _ := nofun
  busy := nofun

theorem Task.later (h : Task T now s) (ht : Timely env T now s) {later : Nat} (hlt : now < later)
    (hdue : ∀ t ∈ s.writerDue T ++ s.taskDue T, later ≤ t) : Task T later s := by
  have hwriter : ∀ t ∈ s.writerDue T, later ≤ t := fun t h => hdue t (List.mem_append_left _ h)
  have htask : ∀ t ∈ s.taskDue T, later ≤ t := fun t h => hdue t (List.mem_append_right _ h)
  have hpos : ¬ later ≤ 0 := Nat.not_le.mpr (Nat.zero_lt_of_lt hlt)
  unfold Task at h ⊢
  unfold taskDue at htask
  cases hphase : s.phase with
  | reading expect since =>
    rw [hphase] at h htask
    dsimp only at h htask ⊢
    split_ifs at htask
    · exact absurd (htask 0 List.mem_cons_self) hpos
    · exact ⟨h.1, htask _ List.mem_cons_self⟩
  | working expect since =>
    rw [hphase] at h htask
    dsimp only at h htask ⊢
    split_ifs at htask with hblocked
    · obtain ⟨hsends, hfull⟩ := Bool.and_eq_true _ _ ▸ hblocked
      obtain ⟨hheld, hle⟩ := (h.2.2.2 hsends).later ht hlt hwriter hfull
      refine ⟨h.1, hle, fun r payload answer hr => ?_, fun _ => hheld⟩
      rw [sends, hr] at hsends
      cases hsends
    · exact absurd (htask 0 List.mem_cons_self) hpos
  | sending since =>
    rw [hphase] at h htask
    dsimp only at h htask ⊢
    split_ifs at htask with hfull
    · obtain ⟨hheld, hle⟩ := h.2.2.later ht hlt hwriter hfull
      exact ⟨h.1, hle, hheld⟩
    · exact absurd (htask 0 List.mem_cons_self) hpos
  | joining since =>
    rw [hphase] at h htask
    dsimp only at h htask ⊢
    split_ifs at htask
    · exact absurd (htask 0 List.mem_cons_self) hpos
    · exact ⟨h.1, htask _ List.mem_cons_self⟩
  | ended handedBack => trivial

section

variable [TokenStore σ] {P} {l : Session.Label} {session : Session σ}

omit [TokenStore σ] in
theorem phase_after (hl : l.isReader = false) (session : Session σ) : (s.after T now l session).phase = s.phase := by
  cases l with
  | complete => cases hl
  | _ => cases hphase : s.phase <;> simp only [after, hphase]

/-- The callers and the writer leave the reader's task where it is. -/
theorem Task.beside (h : Task T now s) (ht : Timely env T now s)
    (hroom : s.session.out.length ≤ writerChannelDepth) (hl : l.isReader = false) (hmay : s.may T now l = true)
    (hstep : Session.step env P s.session l = some session) : Task T now (s.after T now l session) := by
  have hphase : (s.after T now l session).phase = s.phase := phase_after hl session
  have hreader : session.reader = s.session.reader := Session.step_reader env P hl hstep
  have hsends : (s.after T now l session).sends = s.sends := by
    unfold sends
    rw [show (s.after T now l session).session.reader = s.session.reader from hreader]
  have hheld {b : Nat} (hb : ∀ expect since, s.phase ≠ .reading expect since) (hheld : Held T b now s) :
      Held T b now (s.after T now l session) := by
    refine hheld.step ht hroom hmay ?_ hstep
    cases l with
    | obligated opcode payload =>
      cases hp : s.phase with
      | reading expect since => exact absurd hp (hb expect since)
      | _ => simp [may, hp] at hmay
    | shutdown => cases hmay
    | flush => cases hl
    | _ => rfl
  unfold Task at h ⊢
  rw [hphase]
  cases hp : s.phase with
  | reading expect since =>
    rw [hp] at h
    exact h
  | working expect since =>
    rw [hp] at h
    dsimp only at h ⊢
    refine ⟨h.1, h.2.1, fun r payload answer hr => h.2.2.1 r payload answer (hreader ▸ hr), fun hs => ?_⟩
    exact hheld (fun _ _ hr => nomatch hp.symm.trans hr) (h.2.2.2 (hsends ▸ hs))
  | sending since =>
    rw [hp] at h
    dsimp only at h ⊢
    exact ⟨h.1, h.2.1, hheld (fun _ _ hr => nomatch hp.symm.trans hr) h.2.2⟩
  | joining since =>
    rw [hp] at h
    exact h
  | ended handedBack => trivial

/-- The reader's work on an answer. -/
theorem Task.worked (h : Task T now s) (hsingle : s.session.Single) (hl : l.isReader = true)
    (hmay : s.may T now l = true) (hstep : Session.step env P s.session l = some session) :
    Task T now (s.after T now l session) := by
  obtain ⟨expect, since, hp⟩ : ∃ expect since, s.phase = .working expect since := by
    cases hp : s.phase with
    | working expect since => exact ⟨expect, since, rfl⟩
    | _ => cases l <;> first | cases hl; done | simp [may, hp] at hmay
  unfold Task at h ⊢
  rw [hp] at h
  dsimp only at h
  cases l with
  | release =>
    obtain ⟨r, payload, answer, hr, hs'⟩ := Session.step_release_inv env P hstep
    have hphase : (s.after T now .release session).phase = .working expect since := by simp only [after, hp]
    rw [hphase]
    have hnow : now = since := h.2.2.1 r payload answer hr
    refine ⟨h.1, h.2.1, fun _ _ _ _ => hnow, fun _ _ => .inl hnow⟩
  | flush =>
    have hphase : (s.after T now .flush session).phase = .working expect since := by simp only [after, hp]
    rw [hphase]
    obtain ⟨cmd, cmds, resp, payload, answer, hr, hs'⟩ := Session.step_flush_inv env P hstep
    -- there was one command to send
    have hcmds : cmds = [] := by
      have hq := hsingle.queued
      rw [Session.queued, hr] at hq
      exact List.eq_nil_of_length_eq_zero (Nat.le_zero.mp (Nat.le_of_succ_le_succ hq))
    have hreader : session.reader = .flushing [] resp payload answer := by
      rcases hs' with ⟨-, rfl⟩ | ⟨-, rfl⟩
      · rfl
      · rw [hcmds]
    have hsends : (s.after T now .flush session).sends = false := by
      unfold sends
      rw [show (s.after T now .flush session).session.reader = .flushing [] resp payload answer from hreader]
    refine ⟨h.1, h.2.1, fun r payload' answer' hr' => ?_, fun hs => ?_⟩
    · rw [show (s.after T now .flush session).session.reader = .flushing [] resp payload answer from hreader] at hr'
      cases hr'
    · rw [hsends] at hs
      cases hs
  | complete =>
    have hphase : (s.after T now .complete session).phase = .reading expect now := by simp only [after, hp]
    rw [hphase]
    exact ⟨h.1 ▸ h.2.1, Nat.le_add_right _ _⟩
  | resolve => cases hmay
  | _ => cases hl

/-- A tick that is taken puts the next one off by a period. -/
theorem tick_after (hmay : s.may T now l = true) (hstep : Session.step env P s.session l = some session) {start : Nat}
    (htick : start + (s.session.writer.liveness.sent + 1) * T.keepalivePeriod ≤ s.tick)
    (hsent : start + s.session.writer.liveness.sent * T.keepalivePeriod ≤ now) :
    start + (session.writer.liveness.sent + 1) * T.keepalivePeriod ≤ (s.after T now l session).tick ∧
      start + session.writer.liveness.sent * T.keepalivePeriod ≤ now := by
  rcases Session.step_sent env P hstep with hsame | ⟨t, rfl, hone⟩
  · rw [hsame]
    refine ⟨Nat.le_trans htick ?_, hsent⟩
    cases l with
    | keepaliveTick t =>
      change s.tick ≤ T.nextTick s.tick now
      unfold Timing.nextTick
      split <;> omega
    | _ => exact Nat.le_refl _
  · have hdue : s.tick ≤ now := by
      simp only [may, Bool.and_eq_true, decide_eq_true_eq] at hmay
      exact hmay.2
    rw [hone]
    refine ⟨?_, Nat.le_trans htick hdue⟩
    change _ ≤ T.nextTick s.tick now
    have hnext : s.tick + T.keepalivePeriod ≤ T.nextTick s.tick now := by
      unfold Timing.nextTick
      split <;> omega
    rw [Nat.succ_mul, ← Nat.add_assoc]
    exact Nat.le_trans (Nat.add_le_add_right htick _) hnext

omit [TokenStore σ] in
theorem lt_of_not_full (hdone : s.session.pc ≠ .done) (hfull : s.full = false) :
    s.session.out.length < writerChannelDepth := by
  by_contra hlen
  have := full_iff.mpr ⟨hdone, Nat.le_of_not_lt hlen⟩
  rw [hfull] at this
  cases this

/-- There is room for what is sent. -/
theorem room_after (hroom : s.session.out.length ≤ writerChannelDepth) (hmay : s.may T now l = true)
    (hstep : Session.step env P s.session l = some session) : session.out.length ≤ writerChannelDepth := by
  have hout := Session.step_out env P hstep
  cases l with
  | obligated opcode payload =>
    cases hp : s.phase with
    | reading expect since =>
      simp only [may, hp, Bool.and_eq_true, Bool.not_eq_true'] at hmay
      have hdone : s.session.pc ≠ .done := by
        intro hd
        rw [hd] at hmay
        cases hmay.1
      obtain ⟨sent, heq, hsent⟩ := hout
      have hlt := lt_of_not_full hdone hmay.2
      rw [heq, List.length_append]
      omega
    | _ => simp [may, hp] at hmay
  | flush =>
    cases hp : s.phase with
    | working expect since =>
      simp only [may, hp, Bool.not_eq_true'] at hmay
      obtain ⟨cmd, cmds, resp, payload, answer, -, ⟨-, rfl⟩ | ⟨hdone, rfl⟩⟩ := Session.step_flush_inv env P hstep
      · exact hroom
      · rw [List.length_append]
        exact lt_of_not_full hdone hmay
    | _ => simp [may, hp] at hmay
  | shutdown => cases hmay
  | takeOut t =>
    obtain ⟨msg, out, -, hcons, rfl⟩ := Session.step_takeOut_inv env P hstep
    rw [hcons] at hroom
    exact Nat.le_of_succ_le hroom
  | _ =>
    rcases hout with hout | ⟨t, msg, heq, -⟩
    · rw [hout]
      exact hroom
    · cases heq

theorem first_after (hfirst : s.session.pc = .select → s.outFirst = true → s.session.out ≠ [])
    (hstep : Session.step env P s.session l = some session) :
    session.pc = .select → (s.after T now l session).outFirst = true → session.out ≠ [] := by
  intro hselect houtFirst
  cases hl : l.isWriter with
  | true =>
    obtain ⟨t, rfl⟩ := Session.step_select env P hstep hl hselect
    exact List.isEmpty_eq_false_iff.mp (Bool.not_eq_true' _ ▸ houtFirst)
  | false =>
    have hpc := Session.step_moves env P hstep
    rw [hl, if_neg Bool.false_ne_true] at hpc
    have hexpire : ∀ t, l ≠ .expire t := by
      rintro t rfl
      cases hl
    rw [(waits_after hexpire session).2] at houtFirst
    have hne := hfirst (hpc ▸ hselect) houtFirst
    have hout := Session.step_out env P hstep
    split_ifs at hout
    · obtain ⟨sent, hout, -⟩ := hout
      rw [hout]
      exact fun hnil => hne (List.append_eq_nil_iff.mp hnil).1
    · rcases hout with hout | ⟨t, msg, rfl, -⟩
      · rw [hout]
        exact hne
      · cases hl

theorem busy_after (hbusy : ∀ expect since, s.phase = .working expect since → s.session.reader ≠ .idle)
    (hstep : Session.step env P s.session l = some session) (expect : FrameExpect) (since : Nat)
    (hphase : (s.after T now l session).phase = .working expect since) : session.reader ≠ .idle := by
  cases l with
  | complete =>
    cases hp : s.phase <;> simp only [after, hp] at hphase <;> cases hphase
  | release =>
    obtain ⟨r, payload, answer, -, ⟨-, rfl⟩ | ⟨-, rfl⟩⟩ := Session.step_release_inv env P hstep
    · nofun
    · nofun
  | flush =>
    obtain ⟨cmd, cmds, resp, payload, answer, -, ⟨-, rfl⟩ | ⟨-, rfl⟩⟩ := Session.step_flush_inv env P hstep
    · nofun
    · nofun
  | resolve =>
    have hsame : (s.after T now .resolve session).phase = s.phase := by
      cases hp : s.phase <;> simp only [after, hp]
    rw [hsame] at hphase
    exact absurd (Session.step_resolve_inv env P hstep).1 (hbusy expect since hphase)
  | _ =>
    rw [phase_after rfl] at hphase
    rw [Session.step_reader env P rfl hstep]
    exact hbusy expect since hphase

theorem Inv.stepped {start : Nat} (h : Inv env T start now s) (hmay : s.may T now l = true)
    (hstep : Session.step env P s.session l = some session) : Inv env T start now (s.after T now l session) where
  timely := h.timely.step hmay hstep
  room := room_after h.room hmay hstep
  single := Session.step_single env P h.single hstep
  task := by
    cases hl : l.isReader with
    | false => exact h.task.beside h.timely h.room hl hmay hstep
    | true => exact h.task.worked h.single hl hmay hstep
  tick := (tick_after hmay hstep h.tick h.sent).1
  sent := (tick_after hmay hstep h.tick h.sent).2
  first := first_after h.first hstep
  busy := busy_after h.busy hstep

/-- A step beside the writer that sends nothing. -/
theorem Inv.beside {start : Nat} (h : Inv env T start now s) {s' : Clocked σ} {session₁ : Session σ}
    (hstep : Session.step env P session₁ l = some s'.session) (hl : l.isWriter = false) (hsend : l.isSend = false)
    (hsame : session₁.writer = s.session.writer ∧ session₁.pc = s.session.pc ∧ session₁.out = s.session.out ∧
      session₁.reader = s.session.reader)
    (hclock : s'.since = s.since ∧ s'.expiry = s.expiry ∧ s'.tick = s.tick ∧ s'.outFirst = s.outFirst)
    (htask : Task T now s') (hbusy : ∀ expect since, s'.phase = .working expect since → s'.session.reader ≠ .idle) :
    Inv env T start now s' := by
  obtain ⟨hwriter, hpc₁, hout₁, hreader⟩ := hsame
  obtain ⟨hsince, hexpiry, htick, hfirst⟩ := hclock
  have hpc := Session.step_moves env P hstep
  rw [hl, if_neg Bool.false_ne_true, hpc₁] at hpc
  have hentries : s'.session.writer.pending.entries.Sublist s.session.writer.pending.entries := by
    obtain ⟨new, hsub, hnew⟩ := Session.step_outstanding env P hstep
    have hnone : new = none := Option.eq_none_iff_forall_not_mem.mpr fun e he => by
      obtain ⟨t, ht, -⟩ := hnew e he
      rw [Session.Label.instant_eq_none hl] at ht
      cases ht
    rw [hnone, Option.toList_none, List.append_nil, hwriter] at hsub
    exact hsub
  have hout : s'.session.out = s.session.out := by
    have hout := Session.step_out env P hstep
    rw [hsend, if_neg Bool.false_ne_true, hout₁] at hout
    rcases hout with hout | ⟨t, msg, rfl, -⟩
    · exact hout
    · cases hl
  have hsent : s'.session.writer.liveness.sent = s.session.writer.liveness.sent := by
    rcases Session.step_sent env P hstep with hsent | ⟨t, rfl, -⟩
    · rw [hsent, hwriter]
    · cases hl
  have hsingle₁ : session₁.Single := by
    refine ⟨hwriter ▸ h.single.visu, ?_⟩
    rw [Session.queued, hreader]
    exact h.single.queued
  refine ⟨h.timely.other hpc hentries hsince hexpiry, hout ▸ h.room, Session.step_single env P hsingle₁ hstep, htask,
    ?_, ?_, ?_, hbusy⟩
  · rw [hsent, htick]
    exact h.tick
  · rw [hsent]
    exact h.sent
  · rw [hpc, hfirst, hout]
    exact h.first

omit [TokenStore σ] in
/-- A step of `session_once` that leaves the session alone. -/
theorem Inv.phase {start : Nat} (h : Inv env T start now s) {phase : Phase} {heard : Nat}
    (htask : Task T now { s with phase, heard }) (hphase : ∀ expect since, phase ≠ .working expect since) :
    Inv env T start now { s with phase, heard } :=
  ⟨h.timely.other rfl (List.Sublist.refl _) rfl rfl, h.room, h.single, htask, h.tick, h.sent, h.first,
    fun expect since heq => absurd heq (hphase expect since)⟩

theorem Inv.dispatch {start : Nat} (h : Inv env T start now s) {expect : FrameExpect}
    (hphase : s.phase = .reading expect now) (hheard : s.heard = now) {msgType : UInt8} {payload : Bytes}
    {s' : Clocked σ} (hs' : dispatch env P now expect msgType payload s = some s') : Inv env T start now s' := by
  unfold Clocked.dispatch at hs'
  split at hs'
  · obtain ⟨session, hstep, rfl⟩ := Option.map_eq_some_iff.mp hs'
    refine h.beside hstep rfl rfl ⟨rfl, rfl, rfl, rfl⟩ ⟨rfl, rfl, rfl, rfl⟩ ?_ fun expect' since hworking hidle => ?_
    · unfold Task
      dsimp only
      cases hr : session.reader with
      | idle => exact ⟨hheard ▸ Nat.le_add_right _ _, Nat.le_add_right _ _⟩
      | _ => exact ⟨hheard.symm, Nat.le_add_right _ _, fun _ _ _ _ => rfl, fun _ _ => .inl rfl⟩
    · change session.reader = .idle at hidle
      dsimp only at hworking
      rw [hidle] at hworking
      cases hworking
  · obtain ⟨session, hstep, rfl⟩ := Option.map_eq_some_iff.mp hs'
    refine h.beside hstep rfl rfl ⟨rfl, rfl, rfl, rfl⟩ ⟨rfl, rfl, rfl, rfl⟩ ?_ fun _ _ hworking => ?_
    · have htask := h.task
      unfold Task at htask ⊢
      rw [hphase] at htask
      dsimp only
      rw [hphase]
      exact htask
    · cases hphase.symm.trans hworking
  · cases hs'
    exact h

theorem Inv.act {start : Nat} (h : Inv env T start now s) {l : Label} {s' : Clocked σ}
    (hs' : s.act env P T now l = some s') : Inv env T start now s' := by
  have htask := h.task
  unfold Task at htask
  cases l with
  | session l =>
    simp only [Clocked.act] at hs'
    split_ifs at hs' with hmay
    obtain ⟨session, hstep, rfl⟩ := Option.map_eq_some_iff.mp hs'
    exact h.stepped hmay hstep
  | frame data =>
    simp only [Clocked.act] at hs'
    split at hs'
    · rename_i expect since hp
      have hframe : Inv env T start now { s with phase := .reading (expect.next data) now, heard := now } :=
        h.phase ⟨Nat.le_add_right _ _, Nat.le_add_right _ _⟩ nofun
      split at hs'
      · exact hframe.dispatch rfl rfl hs'
      · cases hs'
        exact hframe
    · cases hs'
  | control =>
    simp only [Clocked.act] at hs'
    split at hs'
    · cases hs'
      exact h.phase ⟨Nat.le_add_right _ _, Nat.le_add_right _ _⟩ nofun
    · cases hs'
  | returned outcome =>
    simp only [Clocked.act] at hs'
    split at hs'
    · rename_i expect since hp
      rw [hp] at htask
      split_ifs at hs'
      cases hs'
      refine h.phase ⟨?_, Nat.le_add_right _ _, fun _ => .inl rfl⟩ nofun
      have hread := T.readTimeout_le expect.announcedLen
      have hsince := htask.1
      have hnow := htask.2
      change now ≤ s.heard + T.closing + T.longestRead
      omega
    · cases hs'
  | shutdown =>
    simp only [Clocked.act] at hs'
    split at hs'
    · rename_i since hp
      rw [hp] at htask
      have hjoin (s' : Clocked σ) (hh : s'.heard = s.heard) (hp' : s'.phase = .joining now) : Task T now s' := by
        unfold Task
        rw [hp']
        refine ⟨?_, Nat.le_add_right _ _⟩
        have hsince := htask.1
        have hnow := htask.2.1
        rw [hh]
        omega
      split_ifs at hs' with hdone hfull
      · cases hs'
        exact h.phase (hjoin _ rfl rfl) nofun
      · obtain ⟨session, hstep, rfl⟩ := Option.map_eq_some_iff.mp hs'
        cases hstep
        have hroom : s.session.out.length < writerChannelDepth :=
          lt_of_not_full (fun hd => hdone (by rw [hd]; rfl)) (Bool.not_eq_true _ ▸ hfull)
        refine ⟨h.timely.other rfl (List.Sublist.refl _) rfl rfl, ?_, ⟨h.single.visu, h.single.queued⟩, hjoin _ rfl rfl,
          h.tick, h.sent, fun _ _ hnil => ?_, nofun⟩
        · exact Nat.le_trans (Nat.le_of_eq List.length_append) hroom
        · exact List.cons_ne_nil _ _ (List.append_eq_nil_iff.mp hnil).2
    · cases hs'
  | joined =>
    simp only [Clocked.act] at hs'
    split at hs'
    · split_ifs at hs'
      cases hs'
      exact h.phase trivial nofun
    · cases hs'
  | joinFailed =>
    simp only [Clocked.act] at hs'
    split at hs'
    · split_ifs at hs'
      cases hs'
      exact h.phase trivial nofun
    · cases hs'

end

theorem Inv.later {start : Nat} (h : Inv env T start now s) {later : Nat} (hle : now ≤ later)
    (hdue : ∀ t ∈ s.writerDue T ++ s.taskDue T, later ≤ t) : Inv env T start later s := by
  rcases Nat.eq_or_lt_of_le hle with rfl | hlt
  · exact h
  · exact ⟨h.timely.later hlt fun t ht => hdue t (List.mem_append_left _ ht), h.room, h.single,
      h.task.later h.timely hlt hdue, h.tick, Nat.le_trans h.sent hle, h.first, h.busy⟩

/-- A session that is not over has heard something not long ago. -/
theorem Task.heard (h : Task T now s) : (∃ handedBack, s.phase = .ended handedBack) ∨
    now ≤ s.heard + T.longestRead + 2 * T.closing + shutdownJoinTimeoutSecs * T.second := by
  unfold Task at h
  cases hp : s.phase with
  | reading expect since =>
    rw [hp] at h
    have hread := T.readTimeout_le expect.announcedLen
    have hsince := h.1
    have hnow := h.2
    right
    omega
  | working expect since =>
    rw [hp] at h
    have hsince := h.1
    have hnow := h.2.1
    right
    omega
  | sending since =>
    rw [hp] at h
    have hsince := h.1
    have hnow := h.2.1
    right
    omega
  | joining since =>
    rw [hp] at h
    have hsince := h.1
    have hnow := h.2
    right
    omega
  | ended handedBack => exact .inl ⟨handedBack, rfl⟩

/-! ## No task is stuck -/

section

variable [TokenStore σ] (env T)

variable {env P T}

end

end Clocked

/-- In every run of an established session, whatever the Miniserver answers and when,
however long each write takes, and whatever the callers send: a command is not
outstanding for longer than one write after its deadline, and than a graceful close
in one; the session is over at a fixed time after the last frame at the latest; and
no more keepalives are sent than one in a period. -/
theorem session_on_time {C : Crates} {σ : Type} [TokenStore σ] {env : WriterEnv C} {P : Parsers} {T : Timing}
    {start : Nat} {salt : SaltState} {pos : Pos} {shared : SharedState σ} {ls : List (Tick Clocked.Label)}
    {s : Timed (Clocked σ)}
    (h : run (Clocked.clockwork env P T).step ⟨start, .init T start salt pos shared⟩ ls = some s) :
    (∀ e ∈ s.state.session.writer.pending.entries, s.now ≤ e.deadline + T.closing ∧
        (s.state.session.pc.inLoop = true ∨ s.state.session.pc = .select ∨ s.state.session.pc = .expirePending →
          s.now ≤ e.deadline + writeTimeoutSecs * T.second) ∧
        s.now + env.cfg.commandTimeout ≥ e.deadline) ∧
      ((∃ handedBack, s.state.phase = .ended handedBack) ∨
        s.now ≤ s.state.heard + T.longestRead + 2 * T.closing + shutdownJoinTimeoutSecs * T.second) ∧
      start + s.state.session.writer.liveness.sent * T.keepalivePeriod ≤ s.now := by
  have hinv : Clocked.Inv env T start s.now s.state :=
    Clockwork.run_inv (P := Clocked.Inv env T start) (fun hs h => hs.act h) (fun hs hle hdue => hs.later hle hdue)
      (Clocked.inv_init start salt pos shared) h
  refine ⟨fun e he => ⟨?_, fun hpc => ?_, hinv.timely.ahead e he⟩, hinv.task.heard, hinv.sent⟩
  · exact Nat.le_trans (hinv.timely.now_le he) (Nat.add_le_add_left (T.late_add_stay_le _) _)
  · refine Nat.le_trans (hinv.timely.now_le he) (Nat.add_le_add_left ?_ _)
    rcases hpc with hpc | hpc | hpc
    · rw [(T.late_of_inLoop hpc).1, (T.late_of_inLoop hpc).2]
      exact Nat.le_of_eq (Nat.zero_add _)
    · rw [hpc]
      exact Nat.zero_le _
    · rw [hpc]
      exact Nat.le_refl _

/-- A keepalive that takes long to write, and a Miniserver that is not heard. -/
theorem session_on_time_keepalive :
    ∃ s, run (Clocked.clockwork Session.sampleEnv Parsers.rejecting ⟨1, 60, 0, 150, 5⟩).step
        ⟨0, .init ⟨1, 60, 0, 150, 5⟩ 0 .new .start (⟨.default, none⟩ : SharedState (Option LxToken))⟩
        [.elapse 60, .act (.session (.keepaliveTick 60)), .elapse 20, .act (.session .written)] = some s ∧
      s.now = 80 ∧ s.state.heard = 0 ∧ s.state.session.writer.liveness.sent = 1 ∧
      0 + s.state.session.writer.liveness.sent * 60 ≤ s.now := by
  have hrun : ∃ s, run (Clocked.clockwork Session.sampleEnv Parsers.rejecting ⟨1, 60, 0, 150, 5⟩).step
      ⟨0, .init ⟨1, 60, 0, 150, 5⟩ 0 .new .start (⟨.default, none⟩ : SharedState (Option LxToken))⟩
      [.elapse 60, .act (.session (.keepaliveTick 60)), .elapse 20, .act (.session .written)] = some s ∧
      s.now = 80 ∧ s.state.heard = 0 ∧ s.state.session.writer.liveness.sent = 1 := ⟨_, rfl, rfl, rfl, rfl⟩
  obtain ⟨s, h, hnow, hheard, hsent⟩ := hrun
  exact ⟨s, h, hnow, hheard, hsent, (session_on_time h).2.2⟩

end Lox
