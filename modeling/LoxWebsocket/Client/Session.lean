import LoxWebsocket.Client.Writer
import LoxWebsocket.Client.Exchange

/-!
# A session

The writer, the reader and the Miniserver of one session, from the hand-over
on. A step is the writer taking from one of its channels or timers, the result
of a write, a part of the graceful close, an answer of the Miniserver, or a
part of the reader's work on an answer; senders put into the command channel
at any time. The channels hold any number of messages, and the writer may take
from either: a sender can fill one after the `select!` has looked at it. What a step
was is said once (the `_inv` lemmas).

The reader's steps on an answer are `Reader.onTextMessage`, with others in
between (`onTextMessage_run`).

The session does what `Exchange` says (`step_exchange`), and a oneshot is used
for one command (`Tickets`). So, as long as no waiter has expired, every
waiter that is completed with `Ok` gets the answer to its own command
(`session_correlation`).
-/

namespace Lox

/-- What the reader does next. -/
inductive ReaderPc
  | idle
  /-- An answer has been resolved. -/
  | resolved (r : Resolved) (payload : Bytes) (answer : Nat)
  /-- Secured commands are sent, then the waiter is completed. -/
  | flushing (cmds : List Str) (resp : Option Waiter) (payload : Bytes) (answer : Nat)

structure Session (σ : Type) where
  writer : WriterState
  pc : WriterPc
  shared : SharedState σ
  /-- The command channel, and the channel from the reader. -/
  commands : List IoCommand
  out : List WriterMsg
  /-- The command each oneshot was made for. -/
  waiters : List Str
  /-- The texts the Miniserver has received, and its type-0 messages. -/
  received : List Str
  answers : List Bytes
  /-- How many of them the reader has taken. -/
  read : Nat
  reader : ReaderPc
  completed : List Completion

namespace Session

variable {C : Crates} {σ : Type}

/-- A session at the hand-over: the handshake has used the salt state, and no
answer is outstanding. -/
def init (salt : SaltState) (pos : Pos) (shared : SharedState σ) : Session σ :=
  ⟨.new salt pos, .select, shared, [], [], [], [], [], 0, .idle, []⟩

inductive Label
  -- the façade and the refresher
  | sendCommand (cmd : Str)
  | enqueue (c : IoCommand)
  -- the frames the reader has to answer, and the supervisor
  | obligated (opcode : OpCode) (payload : Bytes)
  | shutdown
  -- the writer
  | takeOut (now : Instant)
  | takeCommand (now : Instant)
  | keepaliveTick (now : Instant)
  | timer
  | written
  | writeFailed (arrived : Bool)
  | expire (now : Instant)
  | gracefulClose (now : Instant)
  | answered (now : Instant)
  | waitElapsed
  | finish
  -- the Miniserver
  | serve (payload : Bytes)
  -- the reader
  | keepaliveAck
  | resolve
  | release
  | flush
  | complete

/-- The encrypted texts the Miniserver has received. -/
def encrypted (s : Session σ) : List Str := s.received.filter isEncryptedText

/-- The writer has decided. -/
def decided (s : Session σ) (d : Outgoing × WriterState) : Session σ :=
  { s with writer := d.2, pc := Writer.next d.1 }

/-- The answer a oneshot has received. -/
def answerTo (s : Session σ) (waiter : Waiter) : Option Bytes :=
  (s.completed.find? fun c => c.waiter = waiter).map Completion.payload

section

variable [TokenStore σ] (env : WriterEnv C) (P : Parsers)

/-- `kill_token` is over, with or without success. -/
def killed (s : Session σ) : Session σ := { s with shared := s.shared.clearToken, pc := .writeClose }

/-- A request of `kill_token`, on a fresh oneshot. -/
def request (now : Instant) (kill : KillStep) (cmd : Str) (s : Session σ) : Session σ :=
  let waiter := s.waiters.length
  let s := { s with waiters := s.waiters ++ [cmd] }
  match Writer.prepareCommand env now cmd (some waiter) s.writer with
  | (.text text, writer) => { s with writer, pc := .request kill waiter text }
  | (_, writer) => killed { s with writer }

def step (s : Session σ) : Label → Option (Session σ)
  | .sendCommand cmd =>
    some { s with
      commands := s.commands ++ [.encrypted cmd s.waiters.length], waiters := s.waiters ++ [cmd] }
  | .enqueue c => if c.ticket = none then some { s with commands := s.commands ++ [c] } else none
  | .obligated opcode payload => some { s with out := s.out ++ [.obligated opcode payload] }
  | .shutdown => some { s with out := s.out ++ [.shutdown] }
  | .takeOut now =>
    match s.pc, s.out with
    | .select, msg :: out => some ({ s with out }.decided (Writer.onWriterMsg env now msg s.writer))
    | _, _ => none
  | .takeCommand now =>
    match s.pc, s.commands with
    | .select, c :: commands => some ({ s with commands }.decided (Writer.onIoCommand env now c s.writer))
    | _, _ => none
  | .keepaliveTick now =>
    match s.pc with
    | .select => some (s.decided (Writer.onKeepaliveTick env now s.writer))
    | _ => none
  | .timer =>
    match s.pc with
    | .select => some { s with pc := .expirePending }
    | _ => none
  | .written =>
    match s.pc with
    | .writeText text => some { s with received := s.received ++ [text], pc := .expirePending }
    | .writeControl _ _ => some { s with pc := .expirePending }
    | .request kill waiter text => some { s with received := s.received ++ [text], pc := .await kill waiter }
    | .writeClose => some { s with pc := .finish }
    | _ => none
  | .writeFailed arrived =>
    match s.pc with
    | .writeText text =>
      some { s with received := s.received ++ if arrived then [text] else [], pc := .finish }
    | .writeControl _ _ => some { s with pc := .finish }
    | .request _ _ text => some (killed { s with received := s.received ++ if arrived then [text] else [] })
    | .writeClose => some { s with pc := .finish }
    | _ => none
  | .expire now =>
    match s.pc with
    | .expirePending => some { s with writer := Writer.expirePending now s.writer, pc := .select }
    | _ => none
  | .gracefulClose now =>
    match s.pc with
    | .gracefulClose =>
      if env.cfg.killTokenOnStop then
        if s.shared.token.isEmpty then some s.killed
        else some (request env now (.getkey s.shared.token) cmdGetKey s)
      else some { s with pc := .writeClose }
    | _ => none
  | .answered now =>
    match s.pc with
    | .await kill waiter => (s.answerTo waiter).map fun payload =>
      match kill with
      | .getkey token =>
        match buildTokenHash P payload token with
        | .ok hash => request env now .killtoken (cmdKillToken hash env.cfg.username) s
        | .error _ => s.killed
      | .killtoken => s.killed
    | _ => none
  | .waitElapsed =>
    match s.pc with
    | .await _ _ => some s.killed
    | _ => none
  | .finish =>
    match s.pc with
    | .finish => some { s with writer := Writer.finish s.writer, pc := .done }
    | _ => none
  | .serve payload =>
    if s.answers.length < s.encrypted.length then some { s with answers := s.answers ++ [payload] } else none
  | .keepaliveAck =>
    some { s with writer := { s.writer with liveness := s.writer.liveness.recordAck.2 } }
  | .resolve =>
    match s.reader, s.answers[s.read]? with
    | .idle, some payload =>
      let (resolved, pending) := resolveText env.keys s.writer.pending payload
      some { s with
        writer := { s.writer with pending }
        read := s.read + 1
        reader := match resolved with
          | none => .idle
          | some r => .resolved r payload s.read }
    | _, _ => none
  | .release =>
    match s.reader with
    | .resolved r payload answer =>
      if releasesVisu r s.writer.visu then
        some { s with
          writer := { s.writer with visu := [] }
          reader := .flushing (flushVisu P s.writer.visu payload) r.resp payload answer }
      else some { s with reader := .flushing [] r.resp payload answer }
    | _ => none
  | .flush =>
    match s.reader, s.pc with
    | .flushing (_ :: _) resp payload answer, .done =>
      some { s with reader := .flushing [] resp payload answer }
    | .flushing (cmd :: cmds) resp payload answer, _ =>
      some { s with out := s.out ++ [.command cmd none], reader := .flushing cmds resp payload answer }
    | _, _ => none
  | .complete =>
    match s.reader with
    | .flushing [] resp payload answer =>
      some { s with reader := .idle, completed := s.completed ++ resp.toList.map (⟨·, answer, payload⟩) }
    | _ => none

end

/-! ## What a step was -/

section

variable [TokenStore σ] (env : WriterEnv C) (P : Parsers)

theorem step_takeOut_inv {s s' : Session σ} {now : Instant} (h : step env P s (.takeOut now) = some s') :
    ∃ msg out, s.pc = .select ∧ s.out = msg :: out ∧
      s' = { s with out }.decided (Writer.onWriterMsg env now msg s.writer) := by
  simp only [step] at h
  split at h
  · cases h
    exact ⟨_, _, ‹_›, ‹_›, rfl⟩
  · cases h

theorem step_takeCommand_inv {s s' : Session σ} {now : Instant} (h : step env P s (.takeCommand now) = some s') :
    ∃ c commands, s.pc = .select ∧ s.commands = c :: commands ∧
      s' = { s with commands }.decided (Writer.onIoCommand env now c s.writer) := by
  simp only [step] at h
  split at h
  · cases h
    exact ⟨_, _, ‹_›, ‹_›, rfl⟩
  · cases h

theorem step_keepaliveTick_inv {s s' : Session σ} {now : Instant} (h : step env P s (.keepaliveTick now) = some s') :
    s.pc = .select ∧ s' = s.decided (Writer.onKeepaliveTick env now s.writer) := by
  simp only [step] at h
  split at h
  · cases h
    exact ⟨‹_›, rfl⟩
  · cases h

theorem step_expire_inv {s s' : Session σ} {now : Instant} (h : step env P s (.expire now) = some s') :
    s.pc = .expirePending ∧ s' = { s with writer := Writer.expirePending now s.writer, pc := .select } := by
  simp only [step] at h
  split at h
  · cases h
    exact ⟨‹_›, rfl⟩
  · cases h

/-- The graceful close makes its first request, or none. -/
theorem step_gracefulClose_inv {s s' : Session σ} {now : Instant} (h : step env P s (.gracefulClose now) = some s') :
    s.pc = .gracefulClose ∧ (s' = s.killed ∨ s' = { s with pc := .writeClose } ∨
      s' = request env now (.getkey s.shared.token) cmdGetKey s) := by
  simp only [step] at h
  split at h
  · split_ifs at h
    · cases h
      exact ⟨‹_›, .inl rfl⟩
    · cases h
      exact ⟨‹_›, .inr (.inr rfl)⟩
    · cases h
      exact ⟨‹_›, .inr (.inl rfl)⟩
  · cases h

/-- An answer to the first request may lead to the second. -/
theorem step_answered_inv {s s' : Session σ} {now : Instant} (h : step env P s (.answered now) = some s') :
    ∃ kill waiter, s.pc = .await kill waiter ∧ (s' = s.killed ∨ ∃ token hash, kill = .getkey token ∧
      s' = request env now .killtoken (cmdKillToken hash env.cfg.username) s) := by
  simp only [step] at h
  split at h
  · rename_i kill waiter hpc
    obtain ⟨payload, -, rfl⟩ := Option.map_eq_some_iff.mp h
    refine ⟨kill, waiter, hpc, ?_⟩
    cases kill with
    | killtoken => exact .inl rfl
    | getkey token =>
      simp only
      split
      · exact .inr ⟨token, _, rfl, rfl⟩
      · exact .inl rfl
  · cases h

theorem step_finish_inv {s s' : Session σ} (h : step env P s .finish = some s') :
    s.pc = .finish ∧ s' = { s with writer := Writer.finish s.writer, pc := .done } := by
  simp only [step] at h
  split at h
  · cases h
    exact ⟨‹_›, rfl⟩
  · cases h

/-- The reader takes an answer: it finds the queue empty, or is left with the
front entry. -/
theorem step_resolve_inv {s s' : Session σ} (h : step env P s .resolve = some s') :
    s.reader = .idle ∧ ∃ payload, s.answers[s.read]? = some payload ∧
      ((∃ pending, pending.timeouts = s.writer.pending.timeouts ∧ pending.entries = s.writer.pending.entries ∧
          s' = { s with writer := { s.writer with pending }, read := s.read + 1 }) ∨
        ∃ e rest r pending, s.writer.pending.entries = e :: rest ∧ r.plaintextCmd = e.plaintextCmd ∧
          pending.timeouts = s.writer.pending.timeouts ∧ pending.entries = rest ∧
          s' = { s with
            writer := { s.writer with pending }, read := s.read + 1, reader := .resolved r payload s.read }) := by
  simp only [step] at h
  split at h
  · rename_i payload hr ha
    cases h
    refine ⟨hr, payload, ha, ?_⟩
    cases he : s.writer.pending.entries with
    | nil =>
      rw [resolveText_nil env.keys he]
      exact .inl ⟨s.writer.pending.noteUnsolicited, rfl, he, by rw [hr]⟩
    | cons e rest =>
      obtain ⟨r, n, hres, hcmd, -⟩ := resolveText_cons env.keys he payload
      rw [hres]
      exact .inr ⟨e, rest, r, ⟨rest, n, _, _⟩, rfl, hcmd, rfl, rfl, rfl⟩
  · cases h

theorem step_release_inv {s s' : Session σ} (h : step env P s .release = some s') :
    ∃ r payload answer, s.reader = .resolved r payload answer ∧
      (releasesVisu r s.writer.visu = true ∧ s' = { s with
          writer := { s.writer with visu := [] }
          reader := .flushing (flushVisu P s.writer.visu payload) r.resp payload answer } ∨
        releasesVisu r s.writer.visu = false ∧ s' = { s with reader := .flushing [] r.resp payload answer }) := by
  simp only [step] at h
  split at h
  · rename_i r payload answer hr
    refine ⟨r, payload, answer, hr, ?_⟩
    split at h
    · cases h
      exact .inl ⟨‹_›, rfl⟩
    · cases h
      exact .inr ⟨Bool.not_eq_true _ ▸ ‹_›, rfl⟩
  · cases h

theorem step_flush_inv {s s' : Session σ} (h : step env P s .flush = some s') :
    ∃ cmd cmds resp payload answer, s.reader = .flushing (cmd :: cmds) resp payload answer ∧
      (s.pc = .done ∧ s' = { s with reader := .flushing [] resp payload answer } ∨
        s.pc ≠ .done ∧ s' = { s with
          out := s.out ++ [.command cmd none], reader := .flushing cmds resp payload answer }) := by
  simp only [step] at h
  split at h
  · rename_i hr hpc
    cases h
    exact ⟨_, _, _, _, _, hr, .inl ⟨hpc, rfl⟩⟩
  · rename_i hr hpc
    cases h
    exact ⟨_, _, _, _, _, hr, .inr ⟨fun hd => hpc hd, rfl⟩⟩
  · cases h

theorem step_complete_inv {s s' : Session σ} (h : step env P s .complete = some s') :
    ∃ resp payload answer completed, s.reader = .flushing [] resp payload answer ∧
      s' = { s with reader := .idle, completed } := by
  simp only [step] at h
  split at h
  · cases h
    exact ⟨_, _, _, _, ‹_›, rfl⟩
  · cases h

end

/-! ## The exchange of a session -/

end Session

/-- The encrypted text that is pushed and to be written; `none` when the writer
writes no more texts. -/
def WriterPc.unsent : WriterPc → Option (List Str)
  | .writeText text => some ([text].filter isEncryptedText)
  | .request _ _ text => some ([text].filter isEncryptedText)
  | .writeClose | .finish | .done => none
  | _ => some []

def WriterPc.isDone : WriterPc → Bool
  | .done => true
  | _ => false

/-- What the reader will deliver. -/
def ReaderPc.matched : ReaderPc → List Completion
  | .idle => []
  | .resolved r payload answer => r.resp.toList.map (⟨·, answer, payload⟩)
  | .flushing _ resp payload answer => resp.toList.map (⟨·, answer, payload⟩)

namespace Session

variable {C : Crates} {σ : Type} {G : PendingEntry → Prop}

def exchange (s : Session σ) : Exchange where
  pushed := s.writer.pushed
  entries := s.writer.pending.entries
  timeouts := s.writer.pending.timeouts
  unsolicited := s.writer.pending.unsolicited
  received := s.encrypted
  unsent := s.pc.unsent
  answers := s.answers
  read := s.read
  matched := s.reader.matched
  completed := s.completed
  done := s.pc.isDone

/-- A decision pushes an entry, or leaves the exchange as it is, or is the end
of writing. -/
theorem decided_exchange (env : WriterEnv C) {s : Session σ} {d : Outgoing × WriterState} {e : Option PendingEntry}
    (hu : s.pc.unsent = some []) (hd : s.pc.isDone = false) (h : Decision env s.writer d.2 d.1 e) :
    Exchange.Step (·.Encrypts env) s.exchange (s.decided d).exchange := by
  obtain ⟨o, w⟩ := d
  replace h : Decision env s.writer w o e := h
  have hx : (s.decided (o, w)).exchange = { s.exchange with
      pushed := s.writer.pushed ++ e.toList, entries := s.writer.pending.entries ++ e.toList,
      unsent := (Writer.next o).unsent } := by
    simp only [exchange, decided, h.pushed, h.entries, h.timeouts, h.unsolicited, hd]
    cases o <;> rfl
  rw [hx]
  have hu' : s.exchange.unsent = some [] := hu
  cases e with
  | some x =>
    have ho : o.unsent = [x.wireCmd] := h.unsent
    have hn : (Writer.next o).unsent = some [x.wireCmd] := by
      cases o with
      | text t => exact congrArg some ho
      | _ => cases ho
    rw [hn]
    exact .push s.exchange x hu (h.encrypts x rfl)
  | none =>
    have ho : o.unsent = [] := h.unsent
    simp only [Option.toList_none, List.append_nil]
    by_cases hs : o = .stop
    · subst hs
      have ha := Exchange.Step.abandon (G := (·.Encrypts env)) s.exchange [] [] hu (List.prefix_refl _)
      rw [List.append_nil] at ha
      exact ha
    · have hn : (Writer.next o).unsent = some [] := by
        cases o with
        | text t => exact congrArg some ho
        | stop => exact absurd rfl hs
        | _ => rfl
      rw [hn, ← hu']
      exact .still s.exchange

/-- The writer goes on with the same to write. -/
theorem moved_exchange {s : Session σ} {pc : WriterPc} (hu : pc.unsent = s.pc.unsent)
    (hd : pc.isDone = s.pc.isDone) : Exchange.Step G s.exchange { s with pc }.exchange := by
  have hx : { s with pc }.exchange = s.exchange := by
    simp only [exchange, hu, hd]
    rfl
  rw [hx]
  exact .still _

/-- A text has been written. -/
theorem written_exchange {s : Session σ} {texts : List Str} {pc : WriterPc}
    (hu : s.pc.unsent = some (texts.filter isEncryptedText)) (hpc : pc.unsent = some [])
    (hd : pc.isDone = s.pc.isDone) :
    Exchange.Step G s.exchange { s with received := s.received ++ texts, pc }.exchange := by
  have hx : { s with received := s.received ++ texts, pc }.exchange =
      { s.exchange with received := s.encrypted ++ texts.filter isEncryptedText, unsent := some [] } := by
    simp only [exchange, encrypted, List.filter_append, hpc, hd]
  rw [hx]
  exact .sent s.exchange _ hu

/-- No text is written from here on; the last may have arrived. -/
theorem abandoned_exchange {s : Session σ} (texts : List Str) (pc : WriterPc) (arrived : Bool)
    (hu : s.pc.unsent = some (texts.filter isEncryptedText)) (hpc : pc.unsent = none)
    (hd : pc.isDone = s.pc.isDone) :
    Exchange.Step G s.exchange
      { s with received := s.received ++ if arrived then texts else [], pc }.exchange := by
  have hx : { s with received := s.received ++ if arrived then texts else [], pc }.exchange =
      { s.exchange with
        received := s.encrypted ++ (if arrived then texts else []).filter isEncryptedText
        unsent := none } := by
    simp only [exchange, encrypted, List.filter_append, hpc, hd]
  rw [hx]
  refine .abandon s.exchange _ _ hu ?_
  cases arrived with
  | true => exact List.prefix_refl _
  | false => exact List.nil_prefix

theorem stopped_exchange {s : Session σ} (pc : WriterPc) (hu : s.pc.unsent = some [])
    (hpc : pc.unsent = none) (hd : pc.isDone = s.pc.isDone) :
    Exchange.Step G s.exchange { s with pc }.exchange := by
  have h := abandoned_exchange (G := G) [] pc false hu hpc hd
  rw [if_neg (by decide), List.append_nil] at h
  exact h

/-- The reader goes on with the same to deliver. -/
theorem reading_exchange {s : Session σ} {reader : ReaderPc} (h : reader.matched = s.reader.matched) :
    Exchange.Step G s.exchange { s with reader }.exchange := by
  have hx : { s with reader }.exchange = s.exchange := by
    simp only [exchange, h]
    rfl
  rw [hx]
  exact .still _

/-- The reader's answer goes to the entry at the front, if there is one. -/
theorem resolved_exchange (keys : SessionKeys C) {s : Session σ} {payload : Bytes}
    (ha : s.answers[s.read]? = some payload) (hr : s.reader = .idle) :
    Exchange.Step G s.exchange { s with
      writer := { s.writer with pending := (resolveText keys s.writer.pending payload).2 }
      read := s.read + 1
      reader := match (resolveText keys s.writer.pending payload).1 with
        | none => .idle
        | some r => .resolved r payload s.read }.exchange := by
  cases he : s.writer.pending.entries with
  | nil =>
    have hx := Exchange.Step.unsolicited (G := G) s.exchange payload ha he
    simp only [resolveText, PendingQueue.resolve_nil he]
    simp only [exchange, hr] at hx ⊢
    exact hx
  | cons e rest =>
    obtain ⟨r, n, hres, -, hresp⟩ := PendingQueue.resolve_cons he (extractLlControl payload) keys
    have hx := Exchange.Step.resolve (G := G) s.exchange payload e rest ha he
    simp only [resolveText, hres]
    rw [← hresp] at hx
    exact hx

section

variable [TokenStore σ] (env : WriterEnv C) (P : Parsers)

theorem request_exchange (now : Instant) (kill : KillStep) (cmd : Str) {s : Session σ}
    (hu : s.pc.unsent = some []) (hd : s.pc.isDone = false) :
    Exchange.Step (·.Encrypts env) s.exchange (request env now kill cmd s).exchange := by
  obtain ⟨e, hdec, -⟩ := Writer.prepareCommand_decision env now cmd (some s.waiters.length) s.writer
  simp only [request]
  generalize Writer.prepareCommand env now cmd (some s.waiters.length) s.writer = d at hdec ⊢
  obtain ⟨o, w⟩ := d
  replace hdec : Decision env s.writer w o e := hdec
  cases o with
  | text t => exact decided_exchange env (d := (.text t, w)) hu hd hdec
  -- without a text the request is given up, which ends the writing
  | _ =>
    exact decided_exchange env (d := (.stop, w)) hu hd
      ⟨hdec.pushed, hdec.entries, hdec.timeouts, hdec.unsolicited, hdec.unsent, hdec.encrypts⟩

/-- A step of the session is a step of its exchange. -/
theorem step_exchange {s s' : Session σ} {l : Label} (h : step env P s l = some s') :
    Exchange.Step (·.Encrypts env) s.exchange s'.exchange := by
  cases l with
  | sendCommand cmd => cases h; exact .still _
  | enqueue c =>
    simp only [step] at h
    split at h
    · cases h; exact .still _
    · cases h
  | obligated opcode payload => cases h; exact .still _
  | shutdown => cases h; exact .still _
  | takeOut now =>
    obtain ⟨msg, out, hpc, -, rfl⟩ := step_takeOut_inv env P h
    obtain ⟨e, hdec, -⟩ := Writer.onWriterMsg_decision env now msg s.writer
    exact decided_exchange env (s := { s with out }) (by rw [hpc]; rfl) (by rw [hpc]; rfl) hdec
  | takeCommand now =>
    obtain ⟨c, commands, hpc, -, rfl⟩ := step_takeCommand_inv env P h
    obtain ⟨e, hdec, -⟩ := Writer.onIoCommand_decision env now c s.writer
    exact decided_exchange env (s := { s with commands }) (by rw [hpc]; rfl) (by rw [hpc]; rfl) hdec
  | keepaliveTick now =>
    obtain ⟨hpc, rfl⟩ := step_keepaliveTick_inv env P h
    exact decided_exchange env (by rw [hpc]; rfl) (by rw [hpc]; rfl)
      (Writer.onKeepaliveTick_decision env now s.writer)
  | timer =>
    simp only [step] at h
    split at h
    · rename_i hpc
      cases h
      exact moved_exchange (by rw [hpc]; rfl) (by rw [hpc]; rfl)
    · cases h
  | written =>
    simp only [step] at h
    split at h
    · rename_i text hpc
      cases h
      exact written_exchange (by rw [hpc]; rfl) rfl (by rw [hpc]; rfl)
    · rename_i hpc
      cases h
      exact moved_exchange (by rw [hpc]; rfl) (by rw [hpc]; rfl)
    · rename_i kill waiter text hpc
      cases h
      exact written_exchange (by rw [hpc]; rfl) rfl (by rw [hpc]; rfl)
    · rename_i hpc
      cases h
      exact moved_exchange (by rw [hpc]; rfl) (by rw [hpc]; rfl)
    · cases h
  | writeFailed arrived =>
    simp only [step] at h
    split at h
    · rename_i text hpc
      cases h
      exact abandoned_exchange [text] .finish arrived (by rw [hpc]; rfl) rfl (by rw [hpc]; rfl)
    · rename_i hpc
      cases h
      exact stopped_exchange .finish (by rw [hpc]; rfl) rfl (by rw [hpc]; rfl)
    · rename_i kill waiter text hpc
      cases h
      exact abandoned_exchange [text] .writeClose arrived (by rw [hpc]; rfl) rfl (by rw [hpc]; rfl)
    · rename_i hpc
      cases h
      exact moved_exchange (by rw [hpc]; rfl) (by rw [hpc]; rfl)
    · cases h
  | expire now =>
    obtain ⟨hpc, rfl⟩ := step_expire_inv env P h
    obtain ⟨hle, he, ht⟩ := s.writer.pending.expire_entries now
    have hx := Exchange.Step.expire (G := (·.Encrypts env)) s.exchange _ hle
    simp only [exchange, hpc] at hx ⊢
    rw [← he, ← ht] at hx
    exact hx
  | gracefulClose now =>
    obtain ⟨hpc, hs'⟩ := step_gracefulClose_inv env P h
    have hstop : Exchange.Step (·.Encrypts env) s.exchange s.killed.exchange :=
      stopped_exchange .writeClose (by rw [hpc]; rfl) rfl (by rw [hpc]; rfl)
    rcases hs' with rfl | rfl | rfl
    · exact hstop
    · exact hstop
    · exact request_exchange env now _ cmdGetKey (by rw [hpc]; rfl) (by rw [hpc]; rfl)
  | answered now =>
    obtain ⟨kill, waiter, hpc, rfl | ⟨token, hash, -, rfl⟩⟩ := step_answered_inv env P h
    · exact stopped_exchange .writeClose (by rw [hpc]; rfl) rfl (by rw [hpc]; rfl)
    · exact request_exchange env now _ _ (by rw [hpc]; rfl) (by rw [hpc]; rfl)
  | waitElapsed =>
    simp only [step] at h
    split at h
    · rename_i hpc
      cases h
      exact stopped_exchange .writeClose (by rw [hpc]; rfl) rfl (by rw [hpc]; rfl)
    · cases h
  | finish =>
    obtain ⟨-, rfl⟩ := step_finish_inv env P h
    exact .finish s.exchange
  | serve payload =>
    simp only [step] at h
    split at h
    · cases h
      exact .serve s.exchange payload ‹_›
    · cases h
  | keepaliveAck => cases h; exact .still _
  | resolve =>
    simp only [step] at h
    split at h
    · rename_i payload hr ha
      cases h
      exact resolved_exchange env.keys ha hr
    · cases h
  | release =>
    obtain ⟨r, payload, answer, hr, ⟨-, rfl⟩ | ⟨-, rfl⟩⟩ := step_release_inv env P h
    · exact reading_exchange (s := { s with writer := { s.writer with visu := [] } }) (by rw [hr]; rfl)
    · exact reading_exchange (by rw [hr]; rfl)
  | flush =>
    obtain ⟨cmd, cmds, resp, payload, answer, hr, ⟨-, rfl⟩ | ⟨-, rfl⟩⟩ := step_flush_inv env P h
    · exact reading_exchange (by rw [hr]; rfl)
    · exact reading_exchange (s := { s with out := s.out ++ [.command cmd none] }) (by rw [hr]; rfl)
  | complete =>
    simp only [step] at h
    split at h
    · rename_i resp payload answer hr
      cases h
      have hx := Exchange.Step.complete (G := (·.Encrypts env)) s.exchange
      simp only [exchange, hr] at hx ⊢
      exact hx
    · cases h

end

/-! ## Oneshots -/

/-- The oneshots in use: each was made for the command it goes with, and none
occurs twice. -/
structure Tickets (ts : List Ticket) (waiters : List Str) : Prop where
  nodup : (ts.map Prod.fst).Nodup
  made : ∀ t ∈ ts, waiters[t.1]? = some t.2

theorem Tickets.perm {ts ts' : List Ticket} {waiters : List Str} (h : Tickets ts waiters)
    (hp : ts.Perm ts') : Tickets ts' waiters :=
  ⟨(hp.map _).nodup_iff.mp h.nodup, fun t ht => h.made t (hp.mem_iff.mpr ht)⟩

/-- Some oneshots, or none, move from the front to the back. -/
theorem Tickets.move {l t a b : List Ticket} {waiters : List Str} (h : Tickets (t ++ (a ++ b)) waiters)
    (hl : l.Sublist t) : Tickets (a ++ (b ++ l)) waiters := by
  have hsub : (l ++ (a ++ b)).Sublist (t ++ (a ++ b)) := hl.append (List.Sublist.refl _)
  have hfront : Tickets (l ++ (a ++ b)) waiters :=
    ⟨(hsub.map _).nodup h.nodup, fun x hx => h.made x (hsub.subset hx)⟩
  rw [← List.append_assoc a]
  exact hfront.perm List.perm_append_comm

/-- A new oneshot differs from those in use. -/
theorem Tickets.alloc {ts : List Ticket} {waiters : List Str} (h : Tickets ts waiters) (cmd : Str) :
    Tickets ((waiters.length, cmd) :: ts) (waiters ++ [cmd]) := by
  have hlt : ∀ t ∈ ts, t.1 < waiters.length := fun t ht => (List.getElem?_eq_some_iff.mp (h.made t ht)).1
  refine ⟨List.nodup_cons.mpr ⟨fun hm => ?_, h.nodup⟩, fun t ht => ?_⟩
  · obtain ⟨t, ht, he⟩ := List.mem_map.mp hm
    exact Nat.lt_irrefl _ (he ▸ hlt t ht)
  · rcases List.mem_cons.mp ht with rfl | ht
    · simp
    · rw [List.getElem?_append_left (hlt t ht)]
      exact h.made t ht

def tickets (s : Session σ) : List Ticket :=
  s.commands.filterMap IoCommand.ticket ++ s.writer.pushed.filterMap PendingEntry.ticket

/-- An entry with the ticket `t`, if there is one, is pushed. -/
theorem filterMap_pushed {w w' : WriterState} {o : Outgoing} {e : Option PendingEntry} {t : Option Ticket}
    (h : Decision env w w' o e) (he : ∀ x ∈ e, x.ticket = t) :
    ∃ l, l.Sublist t.toList ∧ w'.pushed.filterMap PendingEntry.ticket =
      w.pushed.filterMap PendingEntry.ticket ++ l := by
  rw [h.pushed]
  cases e with
  | none => exact ⟨[], List.nil_sublist _, by simp⟩
  | some x =>
    refine ⟨t.toList, List.Sublist.refl _, ?_⟩
    rw [List.filterMap_append]
    cases t <;> simp [he x rfl]

section

variable [TokenStore σ] (env : WriterEnv C) (P : Parsers)

theorem request_tickets (now : Instant) (kill : KillStep) (cmd : Str) {s : Session σ}
    (h : Tickets s.tickets s.waiters) :
    Tickets (request env now kill cmd s).tickets (request env now kill cmd s).waiters ∧
      (request env now kill cmd s).out = s.out := by
  obtain ⟨e, hdec, he⟩ := Writer.prepareCommand_decision env now cmd (some s.waiters.length) s.writer
  simp only [request]
  generalize Writer.prepareCommand env now cmd (some s.waiters.length) s.writer = d at hdec ⊢
  obtain ⟨o, w⟩ := d
  obtain ⟨l, hl, hp⟩ := filterMap_pushed hdec he
  have hnew : Tickets (s.commands.filterMap IoCommand.ticket ++ w.pushed.filterMap PendingEntry.ticket)
      (s.waiters ++ [cmd]) := by
    rw [hp]
    exact Tickets.move (h.alloc cmd) hl
  cases o with
  | text t => exact ⟨hnew, rfl⟩
  | _ => exact ⟨hnew, rfl⟩

/-- What a step does with oneshots. -/
theorem step_tickets {s s' : Session σ} {l : Label} (hs : Tickets s.tickets s.waiters)
    (ho : ∀ m ∈ s.out, m.ticket = none) (h : step env P s l = some s') :
    Tickets s'.tickets s'.waiters ∧ ∀ m ∈ s'.out, m.ticket = none := by
  have hsnoc : ∀ m : WriterMsg, m.ticket = none → ∀ x ∈ s.out ++ [m], x.ticket = none := by
    intro m hm x hx
    rcases List.mem_append.mp hx with hx | hx
    · exact ho x hx
    · rw [List.mem_singleton.mp hx, hm]
  cases l with
  | sendCommand cmd =>
    cases h
    refine ⟨(hs.alloc cmd).perm ?_, ho⟩
    rw [tickets, tickets, List.filterMap_append, List.append_assoc]
    exact List.perm_middle.symm
  | enqueue c =>
    simp only [step] at h
    split at h
    · rename_i hc
      cases h
      refine ⟨?_, ho⟩
      simp only [tickets, List.filterMap_append, List.filterMap_cons, hc, List.filterMap_nil,
        List.append_nil]
      exact hs
    · cases h
  | obligated opcode payload => cases h; exact ⟨hs, hsnoc _ rfl⟩
  | shutdown => cases h; exact ⟨hs, hsnoc _ rfl⟩
  | takeOut now =>
    obtain ⟨msg, out, -, hout, rfl⟩ := step_takeOut_inv env P h
    obtain ⟨e, hdec, he⟩ := Writer.onWriterMsg_decision env now msg s.writer
    obtain ⟨l, hl, hp⟩ := filterMap_pushed hdec he
    rw [hout] at ho
    rw [ho msg List.mem_cons_self] at hl
    refine ⟨?_, fun m hm => ho m (List.mem_cons_of_mem _ hm)⟩
    simp only [tickets, decided, hp]
    exact Tickets.move (t := []) hs hl
  | takeCommand now =>
    obtain ⟨c, commands, -, hcmds, rfl⟩ := step_takeCommand_inv env P h
    obtain ⟨e, hdec, he⟩ := Writer.onIoCommand_decision env now c s.writer
    obtain ⟨l, hl, hp⟩ := filterMap_pushed hdec he
    refine ⟨?_, ho⟩
    simp only [tickets, decided, hp]
    refine Tickets.move (t := c.ticket.toList) ?_ hl
    have htail : s.tickets = c.ticket.toList ++ (commands.filterMap IoCommand.ticket ++
        s.writer.pushed.filterMap PendingEntry.ticket) := by
      rw [tickets, hcmds]
      cases hc : c.ticket <;> simp [hc]
    rw [← htail]
    exact hs
  | keepaliveTick now =>
    obtain ⟨-, rfl⟩ := step_keepaliveTick_inv env P h
    refine ⟨?_, ho⟩
    simp only [tickets, decided, (Writer.onKeepaliveTick_decision env now s.writer).pushed,
      Option.toList_none, List.append_nil]
    exact hs
  | gracefulClose now =>
    obtain ⟨-, rfl | rfl | rfl⟩ := step_gracefulClose_inv env P h
    · exact ⟨hs, ho⟩
    · exact ⟨hs, ho⟩
    · obtain ⟨ht, hout⟩ := request_tickets env now (.getkey s.shared.token) cmdGetKey hs
      exact ⟨ht, hout ▸ ho⟩
  | answered now =>
    obtain ⟨kill, waiter, -, rfl | ⟨token, hash, -, rfl⟩⟩ := step_answered_inv env P h
    · exact ⟨hs, ho⟩
    · obtain ⟨ht, hout⟩ := request_tickets env now .killtoken (cmdKillToken hash env.cfg.username) hs
      exact ⟨ht, hout ▸ ho⟩
  | flush =>
    obtain ⟨cmd, cmds, resp, payload, answer, -, ⟨-, rfl⟩ | ⟨-, rfl⟩⟩ := step_flush_inv env P h
    · exact ⟨hs, ho⟩
    · exact ⟨hs, hsnoc _ rfl⟩
  -- the other steps leave the command channel and the pushes alone
  | _ =>
    simp only [step] at h
    repeat' split at h
    all_goals
      first
      | cases h; exact ⟨hs, ho⟩
      | cases h

/-! ## Every waiter gets its own answer -/

structure Inv (s : Session σ) : Prop where
  exchange : Exchange.Inv (·.Encrypts env) s.exchange
  tickets : Tickets s.tickets s.waiters
  out : ∀ m ∈ s.out, m.ticket = none

omit [TokenStore σ] in
theorem inv_init (salt : SaltState) (pos : Pos) (shared : SharedState σ) : Inv env (init salt pos shared) :=
  ⟨Exchange.inv_init, ⟨List.nodup_nil, fun _ h => by cases h⟩, fun _ h => by cases h⟩

theorem inv_step {s s' : Session σ} {l : Label} (hs : Inv env s) (h : step env P s l = some s') : Inv env s' := by
  obtain ⟨ht, ho⟩ := step_tickets env P hs.tickets hs.out h
  exact ⟨Exchange.inv_step hs.exchange (step_exchange env P h), ht, ho⟩

/-- `k` is the number, among the encrypted texts the Miniserver has received,
of the one command that the oneshot was made for. -/
structure OwnCommand (s : Session σ) (waiter : Waiter) (k : Nat) (e : PendingEntry) : Prop where
  pushed : s.writer.pushed[k]? = some e
  resp : e.resp = some waiter
  cmd : s.waiters[waiter]? = some e.plaintextCmd
  text : s.encrypted[k]? = some e.wireCmd
  encrypts : e.Encrypts env
  unique : ∀ j e', s.writer.pushed[j]? = some e' → e'.resp = some waiter → j = k

omit [TokenStore σ] in
/-- No other entry has the same oneshot. -/
theorem Tickets.unique {s : Session σ} (h : Tickets s.tickets s.waiters) {w : Waiter} {i j : Nat}
    {e e' : PendingEntry} (hi : s.writer.pushed[i]? = some e) (hj : s.writer.pushed[j]? = some e')
    (he : e.resp = some w) (he' : e'.resp = some w) : i = j := by
  have hresp : ∀ x : PendingEntry, x.ticket.map Prod.fst = x.resp := fun x => by
    cases hx : x.resp <;> simp [PendingEntry.ticket, hx]
  have hn : (s.writer.pushed.filterMap PendingEntry.resp).Nodup := by
    have hall := h.nodup
    rw [tickets, List.map_append, List.map_filterMap, List.map_filterMap] at hall
    simpa only [hresp] using (List.nodup_append.mp hall).2.1
  have hp := List.pairwise_iff_getElem.mp (List.pairwise_filterMap.mp hn)
  obtain ⟨hi, hie⟩ := List.getElem?_eq_some_iff.mp hi
  obtain ⟨hj, hje⟩ := List.getElem?_eq_some_iff.mp hj
  by_contra hne
  rcases Nat.lt_or_gt_of_ne hne with hlt | hlt
  · exact hp i j hi hj hlt w (hie ▸ he) w (hje ▸ he') rfl
  · exact hp j i hj hi hlt w (hje ▸ he') w (hie ▸ he) rfl

theorem session_correlation {salt : SaltState} {pos : Pos} {shared : SharedState σ} {ls : List Label}
    {s : Session σ} (h : run (step env P) (init salt pos shared) ls = some s)
    (ht : s.writer.pending.timeouts = 0) :
    (∀ c ∈ s.completed, ∃ e, OwnCommand env s c.waiter c.answer e ∧ s.answers[c.answer]? = some c.payload) ∧
    (∀ k e, s.writer.pushed[k]? = some e → e.resp = none → ∀ c ∈ s.completed, c.answer ≠ k) ∧
    (s.pc.isDone = false → s.writer.pending.unsolicited = 0) := by
  have hs : Inv env s := run_inv (inv_step env P) (inv_init env salt pos shared) h
  have hown : ∀ c ∈ s.completed, s.exchange.Own c := fun c hc =>
    hs.exchange.own ht c (List.mem_append_left _ hc)
  refine ⟨fun c hc => ?_, fun k e hk hr c hc hck => ?_, fun hd => hs.exchange.solicited hd ht⟩
  · obtain ⟨e, hp, hr, ha⟩ := hown c hc
    refine ⟨e, ⟨hp, hr, ?_, ?_, hs.exchange.good e (List.mem_of_getElem? hp), fun j e' hj hr' =>
      hs.tickets.unique hj hp hr' hr⟩, ha⟩
    · have hm : (c.waiter, e.plaintextCmd) ∈ s.tickets :=
        List.mem_append_right _ (List.mem_filterMap.mpr ⟨e, List.mem_of_getElem? hp, by
          rw [PendingEntry.ticket, hr]; rfl⟩)
      exact hs.tickets.made _ hm
    · exact hs.exchange.received_eq hp (List.getElem?_eq_some_iff.mp ha).1
  · obtain ⟨e', hp, hr', -⟩ := hown c hc
    rw [hck] at hp
    have hee : e' = e := Option.some.inj (hp.symm.trans hk)
    rw [hee, hr] at hr'
    cases hr'

end

/-! ## The reader of a session -/

section

variable [TokenStore σ] (env : WriterEnv C) (P : Parsers)

/-- What the reader finds shared. -/
def readerShared (s : Session σ) : ReaderShared :=
  ⟨s.writer.pending, s.writer.visu, s.writer.liveness, !s.pc.isDone⟩

/-- The commands a flush sends: none once the writer is gone. -/
theorem flush_run (resp : Option Waiter) (payload : Bytes) (answer : Nat) (cmds : List Str) (s : Session σ) :
    ∃ ls, run (step env P) { s with reader := .flushing cmds resp payload answer } ls =
      some { s with
        reader := .flushing [] resp payload answer
        out := s.out ++ if s.pc.isDone then [] else cmds.map (.command · none) } := by
  induction cmds generalizing s with
  | nil => exact ⟨[], by cases s.pc.isDone <;> simp⟩
  | cons cmd cmds ih =>
    by_cases hd : s.pc = .done
    · refine ⟨[.flush], run_cons.mpr ⟨_, ?_, rfl⟩⟩
      simp [step, hd, WriterPc.isDone]
    · have hf : s.pc.isDone = false := by
        cases hpc : s.pc with
        | done => exact absurd hpc hd
        | _ => rfl
      obtain ⟨ls, h⟩ := ih { s with out := s.out ++ [.command cmd none] }
      refine ⟨.flush :: ls, run_cons.mpr ⟨_, ?_, h.trans ?_⟩⟩
      · simp only [step]
      · simp [hf]

/-- Nothing is due. -/
theorem step_expire_none {s : Session σ} {now : Instant} (hpc : s.pc = .expirePending)
    (hdue : ∀ e ∈ s.writer.pending.entries, now < e.deadline) :
    step env P s (.expire now) = some { s with pc := .select } := by
  simp only [step, hpc, Writer.expirePending, PendingQueue.expire_none hdue, List.append_nil]

/-- The Miniserver has an answer to give. -/
theorem step_serve {s : Session σ} (h : s.answers.length < s.encrypted.length) (payload : Bytes) :
    step env P s (.serve payload) = some { s with answers := s.answers ++ [payload] } := if_pos h

/-- An answer is resolved with the front entry. -/
theorem step_resolve {s : Session σ} {payload : Bytes} {r : Resolved} {pending : PendingQueue}
    (hidle : s.reader = .idle) (hp : s.answers[s.read]? = some payload)
    (hres : resolveText env.keys s.writer.pending payload = (some r, pending)) : step env P s .resolve = some { s with
      writer := { s.writer with pending }, read := s.read + 1, reader := .resolved r payload s.read } := by
  simp only [step, hidle, hp, hres]

/-- With no secured control queued, an answer completes the front entry. -/
theorem run_resolve {s : Session σ} {payload : Bytes} {e : PendingEntry} {rest : List PendingEntry}
    (hidle : s.reader = .idle) (hp : s.answers[s.read]? = some payload)
    (he : s.writer.pending.entries = e :: rest) (hvisu : s.writer.visu = []) :
    ∃ mismatches, run (step env P) s [.resolve, .release, .complete] = some { s with
      writer := { s.writer with pending := { s.writer.pending with entries := rest, mismatches } }
      read := s.read + 1
      completed := s.completed ++ e.resp.toList.map (⟨·, s.read, payload⟩) } := by
  obtain ⟨r, n, hres, -, hresp⟩ := resolveText_cons env.keys he payload
  have hkeep : releasesVisu r s.writer.visu = false := by rw [releasesVisu, hvisu, List.isEmpty_nil]; simp
  refine ⟨n, run_cons.mpr ⟨_, step_resolve env P hidle hp hres, ?_⟩⟩
  simp only [run, step, hkeep, Bool.false_eq_true, if_false, Option.bind_some, hresp, hidle]

/-- The reader's steps on an answer, with nobody in between, are
`Reader.onTextMessage`. -/
theorem onTextMessage_run {η : Type} [LoxHandler η] {s : Session σ} {payload : Bytes} (hidle : s.reader = .idle)
    (hp : s.answers[s.read]? = some payload) (expect : FrameExpect) (handler : HandlerGuard η) :
    ∃ ls s', run (step env P) s ls = some s' ∧ s'.reader = .idle ∧
      let r := (Reader.onTextMessage env.keys P payload ⟨expect, handler, s.readerShared, [], []⟩).2
      s'.readerShared = r.shared ∧ s'.out = s.out ++ r.out ∧
        ∃ completed, s'.completed = s.completed ++ completed ∧
          r.delivered = completed.map fun c => (c.waiter, .ok c.payload) := by
  rcases hres : resolveText env.keys s.writer.pending payload with ⟨_ | resolved, pending⟩
  · refine ⟨[.resolve], { s with writer := { s.writer with pending }, read := s.read + 1 }, ?_, hidle, ?_⟩
    · refine run_cons.mpr ⟨_, ?_, rfl⟩
      simp only [step, hidle, hp, hres]
    · rw [Reader.onTextMessage_unsolicited P hres]
      exact ⟨rfl, (List.append_nil _).symm, [], (List.append_nil _).symm, rfl⟩
  · have hresolve := step_resolve env P hidle hp hres
    -- what `release` leaves of the secured controls, and what it has the reader send
    obtain ⟨cmds, visu, hrelease, hr⟩ : ∃ cmds visu, step env P { s with
          writer := { s.writer with pending }, read := s.read + 1, reader := .resolved resolved payload s.read }
          .release = some { s with
            writer := { s.writer with pending, visu }, read := s.read + 1
            reader := .flushing cmds resolved.resp payload s.read } ∧
        (Reader.onTextMessage env.keys P payload ⟨expect, handler, s.readerShared, [], []⟩).2 =
          ⟨expect, handler, { s.readerShared with pending, visu },
            if s.pc.isDone then [] else cmds.map (.command · none),
            resolved.resp.toList.map fun w => (w, .ok payload)⟩ := by
      rw [Reader.onTextMessage_resolved P hres]
      cases hv : releasesVisu resolved s.writer.visu with
      | false =>
        refine ⟨[], s.writer.visu, by simp only [step, hv]; rfl, ?_⟩
        simp [readerShared, hv]
      | true =>
        refine ⟨flushVisu P s.writer.visu payload, [], by simp only [step, hv]; rfl, ?_⟩
        cases hd : s.pc.isDone <;> simp [Reader.releaseVisu, readerShared, hv, hd]
    obtain ⟨ls, hflush⟩ := flush_run env P resolved.resp payload s.read cmds
      { s with writer := { s.writer with pending, visu }, read := s.read + 1 }
    refine ⟨.resolve :: .release :: (ls ++ [.complete]), _, run_cons.mpr ⟨_, hresolve, run_cons.mpr
      ⟨_, hrelease, run_append hflush (run_cons.mpr ⟨_, rfl, rfl⟩)⟩⟩, rfl, ?_⟩
    rw [hr]
    exact ⟨rfl, rfl, _, rfl, by simp⟩

theorem step_takeCommand {s : Session σ} {c : IoCommand} {commands : List IoCommand} (hpc : s.pc = .select)
    (hc : s.commands = c :: commands) (now : Instant) : step env P s (.takeCommand now) =
      some ({ s with commands }.decided (Writer.onIoCommand env now c s.writer)) := by
  simp only [step, hpc, hc]

/-- With crates that do not fail, and below the ceiling, a command is pushed. -/
theorem step_takeEncrypted (hC : C.Total) {s : Session σ} {cmd : Str} {resp : Waiter} {commands : List IoCommand}
    (hpc : s.pc = .select) (hc : s.commands = .encrypted cmd resp :: commands)
    (hlt : s.writer.pending.entries.length < env.cfg.maxPending) (now : Instant) :
    ∃ text salt pos, isEncryptedText text = true ∧ step env P s (.takeCommand now) = some { s with
      writer := { s.writer with
        salt, pos
        pending := s.writer.pending.push cmd text (some resp) (now + env.cfg.commandTimeout)
        pushed := s.writer.pushed ++ [⟨cmd, text, some resp, now + env.cfg.commandTimeout⟩] }
      pc := .writeText text
      commands } := by
  obtain ⟨text, salt, pos, htext, hprep⟩ := Writer.prepareCommand_total env now hC cmd (some resp) s.writer
  refine ⟨text, salt, pos, htext, ?_⟩
  rw [step_takeCommand env P hpc hc, Writer.onIoCommand, if_neg (Nat.not_le.mpr hlt), hprep]
  rfl

/-- Such a command is written before anything expires. -/
theorem run_takeEncrypted (hC : C.Total) {s : Session σ} {cmd : Str} {resp : Waiter} {commands : List IoCommand}
    (hpc : s.pc = .select) (hc : s.commands = .encrypted cmd resp :: commands)
    (hlt : s.writer.pending.entries.length < env.cfg.maxPending) (now : Instant)
    (hdue : ∀ e ∈ s.writer.pending.entries, now < e.deadline) (htimeout : 0 < env.cfg.commandTimeout) :
    ∃ text salt pos, isEncryptedText text = true ∧
      run (step env P) s [.takeCommand now, .written, .expire now] = some { s with
        writer := { s.writer with
          salt, pos
          pending := s.writer.pending.push cmd text (some resp) (now + env.cfg.commandTimeout)
          pushed := s.writer.pushed ++ [⟨cmd, text, some resp, now + env.cfg.commandTimeout⟩] }
        commands
        received := s.received ++ [text] } := by
  obtain ⟨text, salt, pos, htext, htake⟩ := step_takeEncrypted env P hC hpc hc hlt now
  have hpush : ∀ e ∈ (s.writer.pending.push cmd text (some resp) (now + env.cfg.commandTimeout)).entries,
      now < e.deadline := by
    rw [PendingQueue.push, List.forall_mem_append, List.forall_mem_singleton]
    exact ⟨hdue, Nat.lt_add_of_pos_right htimeout⟩
  refine ⟨text, salt, pos, htext, run_cons.mpr ⟨_, htake, run_cons.mpr ⟨_, rfl, ?_⟩⟩⟩
  refine run_cons.mpr ⟨_, step_expire_none env P rfl hpush, ?_⟩
  rw [hpc, run]

/-- With crates that do not fail, a control is pushed, whatever the ceiling. -/
theorem step_takeControl (hC : C.Total) {s : Session σ} {uuid value : Str} {commands : List IoCommand}
    (hpc : s.pc = .select) (hc : s.commands = .control uuid value :: commands) (now : Instant) :
    ∃ text salt pos, isEncryptedText text = true ∧ step env P s (.takeCommand now) = some { s with
      writer := { s.writer with
        salt, pos
        pending := s.writer.pending.push ("jdev/sps/io/".toList ++ uuid ++ "/".toList ++ value) text none
          (now + env.cfg.commandTimeout)
        pushed := s.writer.pushed ++
          [⟨"jdev/sps/io/".toList ++ uuid ++ "/".toList ++ value, text, none, now + env.cfg.commandTimeout⟩] }
      pc := .writeText text
      commands } := by
  obtain ⟨text, salt, pos, htext, hprep⟩ := Writer.prepareCommand_total env now hC
    ("jdev/sps/io/".toList ++ uuid ++ "/".toList ++ value) none s.writer
  refine ⟨text, salt, pos, htext, ?_⟩
  rw [step_takeCommand env P hpc hc, Writer.onIoCommand, hprep]
  rfl

/-- With crates that do not fail, a secured control is queued and its
`getvisusalt` pushed. -/
theorem step_takeVisu (hC : C.Total) {s : Session σ} {uuid value visuPw : Str} {commands : List IoCommand}
    (hpc : s.pc = .select) (hc : s.commands = .visuControl uuid value visuPw :: commands) (now : Instant) :
    ∃ text salt pos, isEncryptedText text = true ∧ step env P s (.takeCommand now) = some { s with
      writer := { s.writer with
        salt, pos
        visu := s.writer.visu.push ⟨uuid, value, visuPw⟩
        pending := s.writer.pending.push (cmdGetVisuSalt env.cfg.username) text none (now + env.cfg.commandTimeout)
        pushed := s.writer.pushed ++
          [⟨cmdGetVisuSalt env.cfg.username, text, none, now + env.cfg.commandTimeout⟩] }
      pc := .writeText text
      commands } := by
  obtain ⟨text, salt, pos, htext, hprep⟩ := Writer.prepareCommand_total env now hC
    (cmdGetVisuSalt env.cfg.username) none { s.writer with visu := s.writer.visu.push ⟨uuid, value, visuPw⟩ }
  refine ⟨text, salt, pos, htext, ?_⟩
  rw [step_takeCommand env P hpc hc, Writer.onIoCommand, hprep]
  rfl

end

def sampleEnv : WriterEnv sampleCrates := ⟨sampleWorld, sampleKeys, ⟨"admin".toList, 30, 3, 64, true⟩⟩

def sampleStart : Session (Option LxToken) := init SaltState.new Pos.start ⟨LxToken.default, none⟩

/-- Another command, and what the Miniserver says to the two. -/
def versionCommand : Str := "jdev/sps/LoxAPPversion3".toList

def getKeyAnswer : Bytes :=
  utf8 "\x7b\"LL\":\x7b\"control\":\"dev/sys/getkey\",\"value\":\"41\",\"Code\":\"200\"\x7d\x7d".toList

def versionAnswer : Bytes :=
  utf8 "\x7b\"LL\":\x7b\"control\":\"dev/sps/LoxAPPversion3\",\"value\":\"2024-01-02\",\"Code\":\"200\"\x7d\x7d".toList

/-- Two producers send, and the Miniserver has both commands before it answers. -/
def sampleSends : List Label :=
  .sendCommand sampleCommand :: .sendCommand versionCommand ::
    ([.takeCommand 0, .written, .expire 0] ++ [.takeCommand 1, .written, .expire 1])

def sampleAnswers : List Label :=
  .serve getKeyAnswer :: .serve versionAnswer ::
    ([.resolve, .release, .complete] ++ [.resolve, .release, .complete])

/-- The session when both are outstanding. -/
def sampleSent (salt : SaltState) (pos : Pos) (text text' : Str) : Session (Option LxToken) :=
  let entries := [⟨sampleCommand, text, some 0, 30⟩, ⟨versionCommand, text', some 1, 31⟩]
  { sampleStart with
    writer := ⟨salt, pos, ⟨entries, 0, 0, 0⟩, [], Liveness.new, [], entries⟩
    waiters := [sampleCommand, versionCommand]
    received := [text, text'] }

theorem run_sampleSends : ∃ salt pos text text', (isEncryptedText text = true ∧ isEncryptedText text' = true) ∧
    run (step sampleEnv Parsers.rejecting) sampleStart sampleSends = some (sampleSent salt pos text text') := by
  obtain ⟨text, salt, pos, htext, htake⟩ := run_takeEncrypted sampleEnv Parsers.rejecting
    sampleCrates_lawful.toTotal (s := { sampleStart with
      commands := [.encrypted sampleCommand 0, .encrypted versionCommand 1]
      waiters := [sampleCommand, versionCommand] }) rfl rfl (by decide) 0 nofun (by decide)
  obtain ⟨text', salt', pos', htext', htake'⟩ := run_takeEncrypted sampleEnv Parsers.rejecting
    sampleCrates_lawful.toTotal (s := { sampleStart with
      writer := { sampleStart.writer with
        salt, pos
        pending := ⟨[⟨sampleCommand, text, some 0, 30⟩], 0, 0, 0⟩
        pushed := [⟨sampleCommand, text, some 0, 30⟩] }
      commands := [.encrypted versionCommand 1]
      waiters := [sampleCommand, versionCommand]
      received := [text] }) rfl rfl (Nat.succ_lt_succ (Nat.zero_lt_succ _)) 1
    (List.forall_mem_singleton.mpr (Nat.succ_lt_succ (Nat.zero_lt_succ _))) (by decide)
  exact ⟨salt', pos', text, text', ⟨htext, htext'⟩,
    run_cons.mpr ⟨_, rfl, run_cons.mpr ⟨_, rfl, run_append htake htake'⟩⟩⟩

theorem run_sampleAnswers {text text' : Str} (h : isEncryptedText text = true ∧ isEncryptedText text' = true)
    (salt : SaltState) (pos : Pos) : ∃ mismatches,
      run (step sampleEnv Parsers.rejecting) (sampleSent salt pos text text') sampleAnswers =
        some { sampleSent salt pos text text' with
          writer := { (sampleSent salt pos text text').writer with pending := ⟨[], mismatches, 0, 0⟩ }
          answers := [getKeyAnswer, versionAnswer]
          read := 2
          completed := [⟨0, 0, getKeyAnswer⟩, ⟨1, 1, versionAnswer⟩] } := by
  -- the Miniserver answers because the texts are encrypted ones
  have hencrypted : encrypted (sampleSent salt pos text text') = [text, text'] := by
    simp only [encrypted, sampleSent, List.filter_cons, h.1, h.2, if_true, List.filter_nil]
  have hserve (answers : List Bytes) (hlt : answers.length < 2) (payload : Bytes) :
      step sampleEnv Parsers.rejecting { sampleSent salt pos text text' with answers } (.serve payload) =
        some { sampleSent salt pos text text' with answers := answers ++ [payload] } :=
    step_serve _ _ (hencrypted ▸ hlt) payload
  obtain ⟨n, hfirst⟩ := run_resolve sampleEnv Parsers.rejecting
    (s := { sampleSent salt pos text text' with answers := [getKeyAnswer, versionAnswer] }) rfl rfl rfl rfl
  obtain ⟨n', hsecond⟩ := run_resolve sampleEnv Parsers.rejecting (s := { sampleSent salt pos text text' with
    writer := { (sampleSent salt pos text text').writer with
      pending := ⟨[⟨versionCommand, text', some 1, 31⟩], n, 0, 0⟩ }
    answers := [getKeyAnswer, versionAnswer]
    read := 1
    completed := [⟨0, 0, getKeyAnswer⟩] }) rfl rfl rfl rfl
  exact ⟨n', run_cons.mpr ⟨_, hserve [] (by decide) _, run_cons.mpr ⟨_, hserve [_] (by decide) _,
    run_append hfirst hsecond⟩⟩⟩

theorem session_correlation_getkey :
    ∃ s, run (step sampleEnv Parsers.rejecting) sampleStart (sampleSends ++ sampleAnswers) = some s ∧
      s.completed = [⟨0, 0, getKeyAnswer⟩, ⟨1, 1, versionAnswer⟩] ∧ s.writer.pending.timeouts = 0 ∧
      (∃ e, OwnCommand sampleEnv s 0 0 e ∧ s.answers[0]? = some getKeyAnswer) ∧
      ∃ e, OwnCommand sampleEnv s 1 1 e ∧ s.answers[1]? = some versionAnswer := by
  obtain ⟨salt, pos, text, text', htexts, hsends⟩ := run_sampleSends
  obtain ⟨n, hanswers⟩ := run_sampleAnswers htexts salt pos
  have hrun := run_append hsends hanswers
  obtain ⟨hown, -, -⟩ := session_correlation sampleEnv Parsers.rejecting hrun rfl
  exact ⟨_, hrun, rfl, rfl, hown ⟨0, 0, getKeyAnswer⟩ List.mem_cons_self,
    hown ⟨1, 1, versionAnswer⟩ (List.mem_cons_of_mem _ (List.mem_singleton_self _))⟩

end Session

end Lox
