import LoxWebsocket.Client.Reader

/-!
# The writer

The writer takes one thing at a time from its channels and timers and decides
what to send (`Outgoing`); the write is awaited afterwards. A command is
encrypted and its waiter pushed in the same step (`prepareCommand`), so the
queue is in the order of the wire. `WriterPc` is what the writer task does
next, with the steps of the graceful close.

Every decision either pushes one entry and has its text to write, or pushes
nothing and has no encrypted text to write (`Decision`); `onWriterMsg_decision`,
`onIoCommand_decision` and `onKeepaliveTick_decision` say so of each arm.
-/

namespace Lox

/-- Commands from the façade and the refresher. -/
inductive IoCommand
  | encrypted (cmd : Str) (resp : Waiter)
  | control (uuid value : Str)
  | visuControl (uuid value visuPw : Str)
  /-- End this session and let the supervisor build a new one. -/
  | dropSession
  | stop
  deriving DecidableEq

/-- What one iteration decided to put on the wire. -/
inductive Outgoing
  | text (text : Str)
  | control (opcode : OpCode) (payload : Bytes)
  | stop
  | close
  | idle
  deriving DecidableEq

structure WriterConfig where
  username : Str
  commandTimeout : Nat
  maxMissedKeepalives : Nat
  maxPending : Nat
  killTokenOnStop : Bool

def ConnectConfig.writer (cfg : ConnectConfig) : WriterConfig :=
  ⟨cfg.username, cfg.commandTimeoutSecs, cfg.maxMissedKeepalives, cfg.maxPendingCommands,
    cfg.killTokenOnStop⟩

/-- What a writer is given and does not change. -/
structure WriterEnv (C : Crates) where
  world : World
  keys : SessionKeys C
  cfg : WriterConfig

/-- The salt state and what the writer shares with the reader. -/
structure WriterState where
  salt : SaltState
  pos : Pos
  pending : PendingQueue
  visu : VisuQueue
  liveness : Liveness
  /-- Errors sent on oneshots. -/
  delivered : List Delivery
  /-- Every entry pushed so far. -/
  pushed : List PendingEntry

def WriterState.new (salt : SaltState) (pos : Pos) : WriterState :=
  ⟨salt, pos, PendingQueue.new, [], Liveness.new, [], []⟩

namespace Writer

variable {C : Crates} (env : WriterEnv C)

/-- Encrypt `cmd`, register its waiter and give the frame text. -/
def prepareCommand (now : Instant) (cmd : Str) (resp : Option Waiter) (w : WriterState) :
    Outgoing × WriterState :=
  match w.salt.encrypt env.world env.keys w.pos cmd with
  | (.ok encrypted, salt, pos) =>
    let deadline := now + env.cfg.commandTimeout
    (.text encrypted, { w with
      salt, pos
      pending := w.pending.push cmd encrypted resp deadline
      pushed := w.pushed ++ [⟨cmd, encrypted, resp, deadline⟩] })
  | (.error e, salt, pos) =>
    (.idle, { w with salt, pos, delivered := w.delivered ++ resp.toList.map fun r => (r, .error e) })

def onWriterMsg (now : Instant) (msg : WriterMsg) (w : WriterState) : Outgoing × WriterState :=
  match msg with
  | .obligated opcode payload => (.control opcode payload, w)
  | .command cmd resp => prepareCommand env now cmd resp w
  | .shutdown => (.stop, w)

def onIoCommand (now : Instant) (cmd : IoCommand) (w : WriterState) : Outgoing × WriterState :=
  match cmd with
  | .stop => (.close, w)
  | .dropSession => (.stop, w)
  | .encrypted cmd resp =>
    if w.pending.entries.length ≥ env.cfg.maxPending then
      (.idle, { w with delivered := w.delivered ++ [(resp, .error (.protocol
        ("too many commands in flight (max ".toList ++ Error.decimal env.cfg.maxPending ++ ")".toList)))] })
    else prepareCommand env now cmd (some resp) w
  | .control uuid value =>
    prepareCommand env now ("jdev/sps/io/".toList ++ uuid ++ "/".toList ++ value) none w
  | .visuControl uuid value visuPw =>
    prepareCommand env now (cmdGetVisuSalt env.cfg.username) none
      { w with visu := w.visu.push ⟨uuid, value, visuPw⟩ }

def keepaliveText : Str := "keepalive".toList

def onKeepaliveTick (now : Instant) (w : WriterState) : Outgoing × WriterState :=
  if w.liveness.missed ≥ env.cfg.maxMissedKeepalives then (.stop, w)
  else (.text keepaliveText, { w with liveness := w.liveness.recordSent now })

def expirePending (now : Instant) (w : WriterState) : WriterState :=
  { w with pending := (w.pending.expire now).2.1, delivered := w.delivered ++ (w.pending.expire now).2.2 }

/-- The end of the writer task: every waiter fails, the secured controls are
dropped. -/
def finish (w : WriterState) : WriterState :=
  { w with
    pending := (w.pending.failAll "session ended".toList).2.1
    visu := []
    delivered := w.delivered ++ (w.pending.failAll "session ended".toList).2.2 }

end Writer

/-! ## The writer task -/

/-- The requests of `kill_token`; the token is read before the first. -/
inductive KillStep
  | getkey (token : LxToken)
  | killtoken

/-- What the writer task does next. -/
inductive WriterPc
  | select
  | writeText (text : Str)
  | writeControl (opcode : OpCode) (payload : Bytes)
  | expirePending
  | gracefulClose
  /-- In `request`: write the text, then await the answer. -/
  | request (kill : KillStep) (waiter : Waiter) (text : Str)
  | await (kill : KillStep) (waiter : Waiter)
  | writeClose
  | finish
  | done

/-- Where a decision leads. -/
def Writer.next : Outgoing → WriterPc
  | .idle => .expirePending
  | .text text => .writeText text
  | .control opcode payload => .writeControl opcode payload
  | .stop => .finish
  | .close => .gracefulClose

/-! ## Decisions -/

/-- The texts a Miniserver answers with a type-0 message. -/
def isEncryptedText (text : Str) : Bool := cmdEncrypt.isPrefixOf text

/-- The encrypted text a decision has to write, if any. -/
def Outgoing.unsent : Outgoing → List Str
  | .text t => [t].filter isEncryptedText
  | _ => []

/-- The waiter of a command, with the command: what a oneshot was made for. -/
abbrev Ticket := Waiter × Str

def PendingEntry.ticket (e : PendingEntry) : Option Ticket := e.resp.map (·, e.plaintextCmd)

def IoCommand.ticket : IoCommand → Option Ticket
  | .encrypted cmd resp => some (resp, cmd)
  | _ => none

def WriterMsg.ticket : WriterMsg → Option Ticket
  | .command cmd resp => resp.map (·, cmd)
  | _ => none

section

variable {C : Crates} (env : WriterEnv C)

/-- The text of the entry is its command, encrypted. -/
def PendingEntry.Encrypts (e : PendingEntry) : Prop :=
  ∃ (salt : SaltState) (pos : Pos), (salt.encrypt env.world env.keys pos e.plaintextCmd).1 = .ok e.wireCmd

/-- A decision pushes the entry `e`, whose text it gives, or nothing and gives
no encrypted text. -/
structure Decision (w w' : WriterState) (o : Outgoing) (e : Option PendingEntry) : Prop where
  pushed : w'.pushed = w.pushed ++ e.toList
  entries : w'.pending.entries = w.pending.entries ++ e.toList
  timeouts : w'.pending.timeouts = w.pending.timeouts
  unsolicited : w'.pending.unsolicited = w.pending.unsolicited
  unsent : o.unsent = e.toList.map PendingEntry.wireCmd
  encrypts : ∀ x ∈ e, x.Encrypts env

theorem Decision.nothing {w w' : WriterState} {o : Outgoing} (hp : w'.pushed = w.pushed)
    (hq : w'.pending = w.pending) (ho : o.unsent = []) : Decision env w w' o none :=
  ⟨by simp [hp], by simp [hq], by rw [hq], by rw [hq], ho, by simp⟩

end

namespace Writer

variable {C : Crates} (env : WriterEnv C) (now : Instant)

theorem percentEncodeLoop_extends (encoded : Str) (s : Str) :
    ∀ runStart i out, out <+: percentEncodeLoop encoded runStart i s out := by
  induction s with
  | nil => exact fun runStart i out => List.prefix_append _ _
  | cons c s ih =>
    intro runStart i out
    unfold percentEncodeLoop
    split
    · exact ih _ _ _
    · rw [List.append_assoc]
      exact (List.prefix_append _ _).trans (ih _ _ _)

theorem isEncryptedText_encrypt {w : World} {keys : SessionKeys C} {st : SaltState} {p : Pos}
    {command text : Str} (h : (st.encrypt w keys p command).1 = .ok text) : isEncryptedText text = true := by
  unfold SaltState.encrypt at h
  simp only at h
  split at h
  · cases h
  split at h
  · cases h
  split at h
  · cases h
  cases h
  exact List.isPrefixOf_iff_prefix.mpr (percentEncodeLoop_extends _ _ _ _ _)

theorem prepareCommand_decision (cmd : Str) (resp : Option Waiter) (w : WriterState) :
    ∃ e, Decision env w (prepareCommand env now cmd resp w).2 (prepareCommand env now cmd resp w).1 e ∧
      ∀ x ∈ e, x.ticket = resp.map (·, cmd) := by
  unfold prepareCommand
  rcases h : w.salt.encrypt env.world env.keys w.pos cmd with ⟨r, salt, pos⟩
  cases r with
  | error e => exact ⟨none, .nothing env rfl rfl rfl, by simp⟩
  | ok encrypted =>
    have ht : isEncryptedText encrypted = true := isEncryptedText_encrypt (congrArg Prod.fst h)
    refine ⟨some ⟨cmd, encrypted, resp, now + env.cfg.commandTimeout⟩, ⟨rfl, rfl, rfl, rfl, ?_, ?_⟩, ?_⟩
    · simp [Outgoing.unsent, ht]
    · rintro _ ⟨⟩
      exact ⟨w.salt, w.pos, congrArg Prod.fst h⟩
    · simp [PendingEntry.ticket]

/-- With crates that do not fail, a command is always prepared. -/
theorem prepareCommand_total (hC : C.Total) (cmd : Str) (resp : Option Waiter) (w : WriterState) :
    ∃ text salt pos, isEncryptedText text = true ∧ prepareCommand env now cmd resp w =
      (.text text, { w with
        salt, pos
        pending := w.pending.push cmd text resp (now + env.cfg.commandTimeout)
        pushed := w.pushed ++ [⟨cmd, text, resp, now + env.cfg.commandTimeout⟩] }) := by
  obtain ⟨c, -, -, hspec⟩ := w.salt.encrypt_spec hC env.world env.keys w.pos cmd
  rcases henc : w.salt.encrypt env.world env.keys w.pos cmd with ⟨r, salt, pos⟩
  rw [henc] at hspec
  cases congrArg Prod.fst hspec
  refine ⟨_, salt, pos, isEncryptedText_encrypt (congrArg Prod.fst henc), ?_⟩
  rw [prepareCommand, henc]

/-- What a decision pushes is for the waiter of the message it is about. -/
theorem onWriterMsg_decision (msg : WriterMsg) (w : WriterState) :
    ∃ e, Decision env w (onWriterMsg env now msg w).2 (onWriterMsg env now msg w).1 e ∧
      ∀ x ∈ e, x.ticket = msg.ticket := by
  cases msg with
  | obligated opcode payload => exact ⟨none, .nothing env rfl rfl rfl, by simp⟩
  | command cmd resp => exact prepareCommand_decision env now cmd resp w
  | shutdown => exact ⟨none, .nothing env rfl rfl rfl, by simp⟩

theorem onIoCommand_decision (cmd : IoCommand) (w : WriterState) :
    ∃ e, Decision env w (onIoCommand env now cmd w).2 (onIoCommand env now cmd w).1 e ∧
      ∀ x ∈ e, x.ticket = cmd.ticket := by
  cases cmd with
  | encrypted cmd resp =>
    simp only [onIoCommand]
    split
    · exact ⟨none, .nothing env rfl rfl rfl, by simp⟩
    · exact prepareCommand_decision env now cmd (some resp) w
  | control uuid value => exact prepareCommand_decision env now _ none w
  | visuControl uuid value visuPw =>
    obtain ⟨e, hd, he⟩ := prepareCommand_decision env now (cmdGetVisuSalt env.cfg.username) none
      { w with visu := w.visu.push ⟨uuid, value, visuPw⟩ }
    exact ⟨e, ⟨hd.pushed, hd.entries, hd.timeouts, hd.unsolicited, hd.unsent, hd.encrypts⟩, he⟩
  | dropSession => exact ⟨none, .nothing env rfl rfl rfl, by simp⟩
  | stop => exact ⟨none, .nothing env rfl rfl rfl, by simp⟩

theorem onKeepaliveTick_decision (w : WriterState) :
    Decision env w (onKeepaliveTick env now w).2 (onKeepaliveTick env now w).1 none := by
  unfold onKeepaliveTick
  split
  · exact .nothing env rfl rfl rfl
  · exact .nothing env rfl rfl rfl

end Writer

end Lox
