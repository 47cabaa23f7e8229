import LoxWebsocket.Crypto.KeyExchange
import LoxWebsocket.Crypto.SaltChain
import LoxWebsocket.Client.HandshakeParts
import LoxWebsocket.Client.ClosePolicy
import LoxWebsocket.Client.Session

/-!
# The commands of a connection, as the Miniserver reads them

A connection sends texts: the wrapped session key, encrypted commands and
keepalives. `Miniserver` reads them with its private key: it learns the session
key from the first, opens the others with it, and follows the salts. Nothing is
refused, and what is read are the commands of the handshake and then those the
writer pushed, in order, as far as their texts have arrived (`commands_arrive`):
the encrypted connection is a plain channel of commands.

The handshake and the session hand the salt state on from one command to the
next; `Linked` and `Carried` say that the Miniserver is in step with it.
-/

namespace Lox

/-! ## The Miniserver -/

/-- What a Miniserver keeps of a connection. -/
structure Miniserver where
  session : Option (Key × Iv)
  /-- The active salt. -/
  active : Option Bytes
  /-- The commands read so far. -/
  commands : List Str

namespace Miniserver

def start : Miniserver := ⟨none, none, []⟩

/-- The command of a plaintext: what follows the salt, without the NULs at its
end. -/
def readCommand (plain : Bytes) : Option Str := (fromUtf8 (plain.rdropWhile (· == 0))).map stripSaltPrefix

/-- The Miniserver reads a text, unless it refuses it. -/
def step (C : Crates) (decrypt : Bytes → Option Bytes) (m : Miniserver) (text : Str) : Option Miniserver :=
  match cmdKeyExchange.isPrefixOf? text with
  | some sessionB64 => (unwrapSessionKey decrypt sessionB64).map fun session =>
      { m with session := some session, active := none }
  | none =>
    if text = Writer.keepaliveText then some m
    else do
      let (key, iv) ← m.session
      let plain ← openText C key iv text
      let active ← checkSalt m.active plain
      let command ← readCommand plain
      return { m with active := some active, commands := m.commands ++ [command] }

variable {C : Crates} {decrypt : Bytes → Option Bytes} {m m' : Miniserver}

theorem step_keyExchange {sessionB64 : Str} {session : Key × Iv}
    (h : unwrapSessionKey decrypt sessionB64 = some session) :
    step C decrypt m (cmdKeyExchange ++ sessionB64) =
      some { m with session := some session, active := none } := by
  simp only [step, isPrefixOf?_append, h, Option.map_some]

theorem step_keepalive : step C decrypt m Writer.keepaliveText = some m := by
  have hk : cmdKeyExchange.isPrefixOf? Writer.keepaliveText = none := by decide
  simp only [step, hk, if_true]

theorem readCommand_padZero {w : World} {st : SaltState} (hs : '/' ∉ st.salt) (p : Pos) (command : Str) :
    readCommand (padZero (utf8 (st.saltedText w p command) ++ [0])) = some (trimNul command) := by
  rw [readCommand, rdropWhile_padZero, List.rdropWhile_concat_pos _ _ _ (by decide), utf8_trimNul,
    fromUtf8_utf8, ← trimNul, Option.map_some, stripSaltPrefix_trimNul, stripSaltPrefix_saltedText hs]

/-- A salt that is in step has no slash. -/
theorem slash_notMem_inStep {w : World} {st : SaltState} {p : Pos} {active : Option Bytes}
    (h : SaltState.InStep w st p active) : '/' ∉ st.salt := by
  rcases h.salt with ⟨hs, -⟩ | ⟨-, hs, -⟩
  · rw [hs]
    exact List.not_mem_nil
  · rw [hs]
    exact slash_notMem_hexEncode _

/-- The Miniserver holds the keys of the session and is in step with its salts. -/
structure Follows (w : World) (keys : SessionKeys C) (st : SaltState) (p : Pos) (m : Miniserver) : Prop where
  session : m.session = some (keys.key, keys.iv)
  inStep : SaltState.InStep w st p m.active

/-- An encrypted command is read, and the Miniserver follows. -/
theorem Follows.encrypt (decrypt : Bytes → Option Bytes) (hC : C.Lawful) {w : World} {keys : SessionKeys C}
    {st : SaltState} {p : Pos} (h : m.Follows w keys st p) (command : Str) :
    ∃ text st' p' m', st.encrypt w keys p command = (.ok text, st', p') ∧ step C decrypt m text = some m' ∧
      m'.Follows w keys st' p' ∧ m'.commands = m.commands ++ [trimNul command] := by
  obtain ⟨⟨text, plain, htext, hopen, hsalt⟩, hnext⟩ := SaltState.encrypt_received hC keys h.inStep command
  obtain ⟨text', htext', hplain⟩ := openText_encrypt hC w keys st p command
  have heq : text' = text := Except.ok.inj (htext'.symm.trans htext)
  subst heq
  have hpl : padZero (utf8 (st.saltedText w p command) ++ [0]) = plain :=
    Option.some.inj (hplain.symm.trans hopen)
  have hread : readCommand plain = some (trimNul command) := by
    rw [← hpl]
    exact readCommand_padZero (slash_notMem_inStep h.inStep) p command
  obtain ⟨rest, rfl⟩ : cmdEncrypt <+: text' :=
    List.isPrefixOf_iff_prefix.mp (Writer.isEncryptedText_encrypt htext)
  have hkey : cmdKeyExchange.isPrefixOf? (cmdEncrypt ++ rest) = none := rfl
  have hkeepalive : cmdEncrypt ++ rest ≠ Writer.keepaliveText := fun heq => by
    have hkind := Writer.isEncryptedText_encrypt htext
    rw [heq] at hkind
    exact absurd hkind (by decide)
  refine ⟨_, _, _, { m with
    active := some (utf8 (SaltState.drawnSalt w (st.encrypt w keys p command).2.2))
    commands := m.commands ++ [trimNul command] }, Prod.ext htext rfl, ?_, ⟨h.session, hnext⟩, rfl⟩
  simp only [step, hkey, if_neg hkeepalive, h.session, hopen, hsalt, hread, bind, Option.bind, pure]

/-- An encrypted text adds a command, and no other does. -/
theorem step_commands {text : Str} (h : step C decrypt m text = some m') :
    m.commands <+: m'.commands ∧
      m'.commands.length = m.commands.length + ([text].filter isEncryptedText).length := by
  unfold step at h
  split at h
  · rename_i sessionB64 hkey
    obtain ⟨session, -, rfl⟩ := Option.map_eq_some_iff.mp h
    have hplain : isEncryptedText text = false := by
      rw [isPrefixOf?_eq_some.mp hkey]
      rfl
    rw [List.filter_singleton, hplain]
    exact ⟨List.prefix_refl _, rfl⟩
  · split at h
    · rename_i hkeepalive
      cases h
      have hplain : isEncryptedText text = false := by
        rw [hkeepalive]
        decide
      rw [List.filter_singleton, hplain]
      exact ⟨List.prefix_refl _, rfl⟩
    · simp only [bind, Option.bind_eq_some_iff, pure, Option.some.injEq] at h
      obtain ⟨⟨key, iv⟩, -, plain, hopen, active, -, command, -, rfl⟩ := h
      have hencrypted : isEncryptedText text = true := by
        obtain ⟨body, hbody, -⟩ := Option.bind_eq_some_iff.mp hopen
        rw [isPrefixOf?_eq_some.mp hbody]
        exact List.isPrefixOf_iff_prefix.mpr (List.prefix_append _ _)
      rw [List.filter_singleton, hencrypted]
      exact ⟨List.prefix_append _ _, List.length_append⟩

theorem run_commands {texts : List Str} (h : run (step C decrypt) m texts = some m') :
    m.commands <+: m'.commands ∧
      m'.commands.length = m.commands.length + (texts.filter isEncryptedText).length := by
  induction texts generalizing m with
  | nil =>
    cases h
    exact ⟨List.prefix_refl _, rfl⟩
  | cons text texts ih =>
    obtain ⟨m₁, hstep, hrun⟩ := run_cons.mp h
    obtain ⟨hp, hl⟩ := step_commands hstep
    obtain ⟨hp', hl'⟩ := ih hrun
    refine ⟨hp.trans hp', ?_⟩
    have hsplit : (text :: texts).filter isEncryptedText =
        [text].filter isEncryptedText ++ texts.filter isEncryptedText := List.filter_append [text] texts
    rw [hl', hl, hsplit, List.length_append, Nat.add_assoc]

/-- The clock does not matter. -/
theorem Follows.congr {w : World} {keys : SessionKeys C} {st : SaltState} {p p' : Pos} (h : m.Follows w keys st p)
    (hp : p'.draws = p.draws) : m.Follows w keys st p' := by
  have hd : SaltState.drawnSalt w p' = SaltState.drawnSalt w p := by
    rw [SaltState.drawnSalt, SaltState.drawnSalt, hp]
  exact ⟨h.session, h.inStep.count_le, by rw [hd]; exact h.inStep.salt⟩

/-- After the key exchange the Miniserver follows a session that starts. -/
theorem follows_start {w : World} {keys : SessionKeys C} (p : Pos) (commands : List Str) :
    (⟨some (keys.key, keys.iv), none, commands⟩ : Miniserver).Follows w keys SaltState.new p :=
  ⟨rfl, by decide, .inl ⟨rfl, rfl⟩⟩

end Miniserver

/-! ## The handshake -/

namespace Handshake

variable {C : Crates} {η σ : Type}

variable (env : HandshakeEnv C) (decrypt : Bytes → Option Bytes)

/-- No write fails, and the Miniserver that has read the texts follows the salts
and has read the commands. -/
def Linked (s : HsState η σ) : Prop :=
  (∀ w ∈ s.writes, w = none) ∧ ∃ m, run (Miniserver.step C decrypt) .start s.texts = some m ∧
    m.Follows env.world env.keys s.salt s.pos ∧ m.commands = s.commands.map trimNul

variable {env decrypt}

theorem Linked.congr {s s' : HsState η σ} (h : Linked env decrypt s) (hw : s'.writes = s.writes)
    (ht : s'.texts = s.texts) (hc : s'.commands = s.commands) (hs : s'.salt = s.salt)
    (hp : s'.pos.draws = s.pos.draws) : Linked env decrypt s' := by
  obtain ⟨hwrites, m, hrun, hfollows, hcommands⟩ := h
  refine ⟨hw ▸ hwrites, m, ht ▸ hrun, ?_, hc ▸ hcommands⟩
  rw [hs]
  exact hfollows.congr hp

/-- A text is written if no write fails. -/
theorem sendText_written {s : HsState η σ} (h : ∀ w ∈ s.writes, w = none) (text : Str) :
    ∃ writes, (∀ w ∈ writes, w = none) ∧
      sendText text s = (.ok (), { s with writes, texts := s.texts ++ [text] }) := by
  cases hw : s.writes with
  | nil => exact ⟨[], List.forall_mem_nil _, by simp only [sendText, Prog.tryAct, hw]⟩
  | cons w writes =>
    rw [hw] at h
    cases h w List.mem_cons_self
    exact ⟨writes, fun w hm => h w (List.mem_cons_of_mem _ hm), by simp only [sendText, Prog.tryAct, hw]⟩

variable [LoxHandler η]

/-- What requests keep, and what the clock and the shared token have no part in. -/
structure Asking (env : HandshakeEnv C) (R : HsState η σ → HsState η σ → Prop) : Prop where
  request : ∀ cmd, (request env cmd).Keeps R
  clock : ∀ token, (secondsToExpire env token).Keeps R
  shared : ∀ (s : HsState η σ) (shared : SharedState σ), R s { s with shared }

namespace Asking

variable {R : HsState η σ → HsState η σ → Prop} [IsPreorder (HsState η σ) R]

theorem reuseToken (h : Asking env R) (token : LxToken) : (reuseToken env token).Keeps R := by
  refine ((h.request _).mapErr _).bind fun keyResp => ((Prog.keeps_lift _).mapErr _).bind fun hash => ?_
  refine ((h.request _).mapErr _).bind fun auth => ?_
  split
  · exact ((Prog.keeps_lift _).mapErr _).bind fun token => Prog.keeps_pure _
  · exact Prog.keeps_pure _
  · exact Prog.keeps_fail _

theorem killDisplaced (h : Asking env R) (displaced : Option LxToken) : (killDisplaced env displaced).Keeps R := by
  cases displaced with
  | none => exact Prog.keeps_pure _
  | some old =>
    have hkill : (killToken env old).Keeps R :=
      (h.request _).bind fun keyResp => (Prog.keeps_lift _).bind fun hash =>
        (h.request _).bind fun _ => Prog.keeps_pure _
    exact hkill.attempt.bind fun _ => Prog.keeps_pure _

theorem acquireToken (h : Asking env R) (displaced : Option LxToken) : (acquireToken env displaced).Keeps R := by
  refine (h.killDisplaced displaced).bind fun _ => ((h.request _).mapErr _).bind fun getkey2 => ?_
  refine ((Prog.keeps_lift _).mapErr _).bind fun x => ((h.request _).mapErr _).bind fun resp => ?_
  refine (Prog.keeps_lift _).bind fun token => ?_
  split
  · exact Prog.keeps_fail _
  · exact Prog.keeps_pure _

theorem enableUpdates (h : Asking env R) : (enableUpdates env).Keeps R := by
  refine (h.request _).bind fun resp => ?_
  split
  · split
    · exact Prog.keeps_fail _
    · exact Prog.keeps_pure _
  · exact Prog.keeps_pure _

variable [TokenStore σ]

theorem replaceToken (h : Asking env R) (displaced : Option LxToken) : (replaceToken env displaced).Keeps R :=
  (h.acquireToken displaced).bind fun _ s => h.shared s _

theorem authenticate (h : Asking env R) : (authenticate env).Keeps R := by
  refine Prog.Keeps.bind (fun s => refl_of R s) fun s => ?_
  dsimp only
  split
  · exact h.replaceToken none
  refine (h.clock _).bind fun remaining => ?_
  split
  · exact h.replaceToken _
  refine (h.reuseToken _).bind fun token => ?_
  split
  · exact fun s => h.shared s _
  · exact Prog.Keeps.bind (fun s => h.shared s _) fun _ => h.replaceToken none

/-- All that follows the key exchange. -/
theorem afterKeyExchange (h : Asking env R) :
    (do
      Handshake.authenticate env
      if env.cfg.receiveUpdates then Handshake.enableUpdates env else pure () : Hs η σ Unit).Keeps R := by
  refine h.authenticate.bind fun _ => ?_
  split
  · exact h.enableUpdates
  · exact Prog.keeps_pure _

end Asking

theorem readPayload_linked : (readPayload : Hs η σ Bytes).Keeps (Prog.Stays (Linked env decrypt)) := by
  refine (readPayloadLoop_onlyReads _).mono fun s s' hs h => ?_
  rw [hs]
  exact h.congr rfl rfl rfl rfl rfl

/-- A request is read by the Miniserver, whatever becomes of its answer. -/
theorem request_linked (hC : C.Lawful) (cmd : Str) :
    (request env cmd : Hs η σ Bytes).Keeps (Prog.Stays (Linked env decrypt)) := by
  intro s ⟨hwrites, m, hrun, hfollows, hcommands⟩
  obtain ⟨text, salt, pos, m', henc, hstep, hfollows', hcommands'⟩ := hfollows.encrypt decrypt hC cmd
  have hencrypt : encrypt env cmd s = (.ok text, { s with salt, pos }) := by
    simp only [encrypt, Prog.tryAct, henc]
  obtain ⟨writes, hwrites', hsend⟩ := sendText_written (s := { s with salt, pos }) hwrites text
  -- the command counts as sent before its answer is read
  have hsent : Linked env decrypt { s with
      salt, pos, writes, texts := s.texts ++ [text], commands := s.commands ++ [cmd] } := by
    refine ⟨hwrites', m', run_append hrun (run_cons.mpr ⟨m', hstep, rfl⟩), hfollows', ?_⟩
    rw [hcommands', hcommands, List.map_append]
    rfl
  have hanswer : (do
      let resp ← readPayload
      Prog.modify fun s => { s with exchanges := s.exchanges ++ [(cmd, resp)] }
      pure resp : Hs η σ Bytes).Keeps (Prog.Stays (Linked env decrypt)) :=
    readPayload_linked.bind fun resp => Prog.Keeps.bind (fun s h => h.congr rfl rfl rfl rfl rfl) fun _ =>
      Prog.keeps_pure _
  have heq : request env cmd s = (do
      let resp ← readPayload
      Prog.modify fun s => { s with exchanges := s.exchanges ++ [(cmd, resp)] }
      pure resp : Hs η σ Bytes)
        { s with salt, pos, writes, texts := s.texts ++ [text], commands := s.commands ++ [cmd] } := by
    rw [request, Prog.bind_ok hencrypt, Prog.bind_ok hsend]
    rfl
  rw [heq]
  exact hanswer _ hsent

theorem asking_linked (hC : C.Lawful) : Asking (η := η) (σ := σ) env (Prog.Stays (Linked env decrypt)) :=
  ⟨request_linked hC, fun _ _ h => h.congr rfl rfl rfl rfl rfl, fun _ _ h => h.congr rfl rfl rfl rfl rfl⟩

/-- The key exchange links the two sides. -/
theorem keyExchange_linked {sessionB64 : Str}
    (hunwrap : unwrapSessionKey decrypt sessionB64 = some (env.keys.key, env.keys.iv)) {s : HsState η σ}
    (hwrites : ∀ w ∈ s.writes, w = none) (hsalt : s.salt = SaltState.new) (htexts : s.texts = [])
    (hcommands : s.commands = []) : Linked env decrypt (keyExchange env sessionB64 s).2 := by
  obtain ⟨writes, hwrites', hsend⟩ := sendText_written hwrites (cmdKeyExchange ++ sessionB64)
  have hsent : Linked env decrypt { s with writes, texts := s.texts ++ [cmdKeyExchange ++ sessionB64] } := by
    refine ⟨hwrites', ⟨some (env.keys.key, env.keys.iv), none, []⟩, ?_, ?_, ?_⟩
    · simp only [htexts, List.nil_append]
      exact run_cons.mpr ⟨_, Miniserver.step_keyExchange hunwrap, rfl⟩
    · simp only [hsalt]
      exact Miniserver.follows_start _ _
    · simp only [hcommands, List.map_nil]
  have hanswer : (do
      let resp ← readPayload
      let root ← Prog.lift (parseJson env.parsers resp)
      let _ ← Prog.lift (requireLlOk root)
      pure () : Hs η σ Unit).Keeps (Prog.Stays (Linked env decrypt)) :=
    readPayload_linked.bind fun resp => (Prog.keeps_lift _).bind fun root => (Prog.keeps_lift _).bind fun _ =>
      Prog.keeps_pure _
  have hexchange : Linked env decrypt (exchange env sessionB64 s).2 := by
    rw [exchange, Prog.bind_ok hsend]
    exact hanswer _ hsent
  unfold keyExchange inStep Prog.mapErr
  split
  · rename_i heq
    rw [heq] at hexchange
    exact hexchange
  · rename_i heq
    rw [heq] at hexchange
    exact hexchange

/-- After a handshake, however it ends, the Miniserver is in step. -/
theorem all_linked [TokenStore σ] (hC : C.Lawful) {sessionB64 : Str}
    (hunwrap : unwrapSessionKey decrypt sessionB64 = some (env.keys.key, env.keys.iv)) {s : HsState η σ}
    (hwrites : ∀ w ∈ s.writes, w = none) (hsalt : s.salt = SaltState.new) (htexts : s.texts = [])
    (hcommands : s.commands = []) : Linked env decrypt (Handshake.all env sessionB64 s).2 := by
  have hkey := keyExchange_linked hunwrap hwrites hsalt htexts hcommands
  rw [all, Prog.bind_apply]
  split
  · rename_i heq
    rw [heq] at hkey
    exact (asking_linked hC).afterKeyExchange _ hkey
  · rename_i heq
    rw [heq] at hkey
    exact hkey

end Handshake

/-! ## The session -/

/-- The text to be written; `none` when the writer writes no more texts. -/
def WriterPc.outgoing : WriterPc → Option (List Str)
  | .writeText text => some [text]
  | .request _ _ text => some [text]
  | .writeClose | .finish | .done => none
  | _ => some []

namespace Writer

variable {C : Crates} {decrypt : Bytes → Option Bytes} {env : WriterEnv C} {m : Miniserver} {w : WriterState}

/-- The Miniserver reads what a decision has to write, and follows; it reads the
commands of the entries that are pushed. -/
def Passes (decrypt : Bytes → Option Bytes) (env : WriterEnv C) (m : Miniserver) (w : WriterState)
    (d : Outgoing × WriterState) : Prop :=
  ∃ m' es, run (Miniserver.step C decrypt) m ((next d.1).outgoing.getD []) = some m' ∧
    m'.Follows env.world env.keys d.2.salt d.2.pos ∧ d.2.pushed = w.pushed ++ es ∧
    m'.commands = m.commands ++ es.map (trimNul ·.plaintextCmd)

/-- A decision that pushes nothing and writes no text. -/
theorem Passes.nothing {d : Outgoing × WriterState} (h : m.Follows env.world env.keys w.salt w.pos)
    (ho : (next d.1).outgoing.getD [] = []) (hsalt : d.2.salt = w.salt) (hpos : d.2.pos = w.pos)
    (hp : d.2.pushed = w.pushed) : Passes decrypt env m w d := by
  refine ⟨m, [], by rw [ho]; rfl, ?_, by rw [hp, List.append_nil], by rw [List.map_nil, List.append_nil]⟩
  rw [hsalt, hpos]
  exact h

theorem prepareCommand_passes (hC : C.Lawful) (h : m.Follows env.world env.keys w.salt w.pos) (now : Instant)
    (cmd : Str) (resp : Option Waiter) : Passes decrypt env m w (prepareCommand env now cmd resp w) := by
  obtain ⟨text, salt, pos, m', henc, hstep, hfollows, hcommands⟩ := h.encrypt decrypt hC cmd
  have hprep : prepareCommand env now cmd resp w = (.text text, { w with
      salt, pos
      pending := w.pending.push cmd text resp (now + env.cfg.commandTimeout)
      pushed := w.pushed ++ [⟨cmd, text, resp, now + env.cfg.commandTimeout⟩] }) := by
    rw [prepareCommand, henc]
  rw [hprep]
  exact ⟨m', [⟨cmd, text, resp, now + env.cfg.commandTimeout⟩], run_cons.mpr ⟨m', hstep, rfl⟩, hfollows, rfl,
    hcommands⟩

theorem onWriterMsg_passes (hC : C.Lawful) (h : m.Follows env.world env.keys w.salt w.pos) (now : Instant)
    (msg : WriterMsg) : Passes decrypt env m w (onWriterMsg env now msg w) := by
  cases msg with
  | obligated opcode payload => exact .nothing h rfl rfl rfl rfl
  | command cmd resp => exact prepareCommand_passes hC h now cmd resp
  | shutdown => exact .nothing h rfl rfl rfl rfl

theorem onIoCommand_passes (hC : C.Lawful) (h : m.Follows env.world env.keys w.salt w.pos) (now : Instant)
    (cmd : IoCommand) : Passes decrypt env m w (onIoCommand env now cmd w) := by
  cases cmd with
  | encrypted cmd resp =>
    simp only [onIoCommand]
    split
    · exact .nothing h rfl rfl rfl rfl
    · exact prepareCommand_passes hC h now cmd (some resp)
  | control uuid value => exact prepareCommand_passes hC h now _ none
  | visuControl uuid value visuPw =>
    exact prepareCommand_passes (w := { w with visu := w.visu.push ⟨uuid, value, visuPw⟩ }) hC h now _ none
  | dropSession => exact .nothing h rfl rfl rfl rfl
  | stop => exact .nothing h rfl rfl rfl rfl

theorem onKeepaliveTick_passes (h : m.Follows env.world env.keys w.salt w.pos) (now : Instant) :
    Passes decrypt env m w (onKeepaliveTick env now w) := by
  unfold onKeepaliveTick
  split
  · exact .nothing h rfl rfl rfl rfl
  · exact ⟨m, [], run_cons.mpr ⟨m, Miniserver.step_keepalive, rfl⟩, h, (List.append_nil _).symm,
      (List.append_nil _).symm⟩

end Writer

namespace Session

variable {C : Crates} {σ : Type}

/-- The commands pushed, as a Miniserver reads them. -/
def pushedCommands (s : Session σ) : List Str := s.writer.pushed.map (trimNul ·.plaintextCmd)

variable (decrypt : Bytes → Option Bytes) (env : WriterEnv C) (m₀ : Miniserver)

/-- The Miniserver reads what has arrived and what is to be written. As long as
texts are written it is in step, and has then read the commands pushed. -/
def Carried (s : Session σ) : Prop :=
  ∃ m, run (Miniserver.step C decrypt) m₀ (s.received ++ s.pc.outgoing.getD []) = some m ∧
    m.commands <+: m₀.commands ++ s.pushedCommands ∧
    (s.pc.outgoing ≠ none → m.Follows env.world env.keys s.writer.salt s.writer.pos ∧
      m.commands = m₀.commands ++ s.pushedCommands)

variable {decrypt env m₀}

theorem carried_init {salt : SaltState} {pos : Pos} (h : m₀.Follows env.world env.keys salt pos)
    (shared : SharedState σ) : Carried decrypt env m₀ (init salt pos shared) := by
  have hnone : (init salt pos shared).pushedCommands = [] := rfl
  rw [Carried, hnone, List.append_nil]
  exact ⟨m₀, rfl, List.prefix_refl _, fun _ => ⟨h, rfl⟩⟩

/-- Steps that neither decide nor lose a text. -/
theorem Carried.congr {s s' : Session σ} (h : Carried decrypt env m₀ s)
    (ht : s'.received ++ s'.pc.outgoing.getD [] = s.received ++ s.pc.outgoing.getD [])
    (hpc : s'.pc.outgoing ≠ none → s.pc.outgoing ≠ none) (hp : s'.writer.pushed = s.writer.pushed)
    (hsalt : s'.writer.salt = s.writer.salt) (hpos : s'.writer.pos = s.writer.pos) : Carried decrypt env m₀ s' := by
  have hc : s'.pushedCommands = s.pushedCommands := by rw [pushedCommands, pushedCommands, hp]
  unfold Carried at h ⊢
  rw [ht, hc, hsalt, hpos]
  obtain ⟨m, hrun, hprefix, hopen⟩ := h
  exact ⟨m, hrun, hprefix, fun hn => hopen (hpc hn)⟩

/-- The text to be written is lost, and nothing is written after it. -/
theorem Carried.lost {s s' : Session σ} (h : Carried decrypt env m₀ s) (hr : s'.received = s.received)
    (hpc : s'.pc.outgoing = none) (hp : s'.writer.pushed = s.writer.pushed) : Carried decrypt env m₀ s' := by
  obtain ⟨m, hrun, hprefix, -⟩ := h
  obtain ⟨m₁, hrun₁, hrest⟩ := exists_run_of_append hrun
  refine ⟨m₁, ?_, ?_, fun hn => absurd hpc hn⟩
  · rw [hpc, hr, Option.getD_none, List.append_nil]
    exact hrun₁
  · rw [pushedCommands, hp]
    exact (Miniserver.run_commands hrest).1.trans hprefix

/-- The writer decides. -/
theorem Carried.decided {s : Session σ} (h : Carried decrypt env m₀ s) (hpc : s.pc.outgoing = some [])
    {d : Outgoing × WriterState}
    (hd : ∀ m : Miniserver, m.Follows env.world env.keys s.writer.salt s.writer.pos →
      Writer.Passes decrypt env m s.writer d) : Carried decrypt env m₀ (s.decided d) := by
  obtain ⟨m, hrun, -, hopen⟩ := h
  obtain ⟨hfollows, hcommands⟩ := hopen (by rw [hpc]; exact Option.some_ne_none _)
  obtain ⟨m', es, hrun', hfollows', hpushed, hcommands'⟩ := hd m hfollows
  rw [hpc, Option.getD_some, List.append_nil] at hrun
  have hall : m'.commands = m₀.commands ++ (s.decided d).pushedCommands := by
    rw [hcommands', hcommands, List.append_assoc, pushedCommands, pushedCommands, ← List.map_append, ← hpushed]
    rfl
  exact ⟨m', run_append hrun hrun', by rw [hall], fun _ => ⟨hfollows', hall⟩⟩

/-- The Miniserver has read the commands whose texts have arrived. -/
theorem Carried.arrived {s : Session σ} (h : Carried decrypt env m₀ s) :
    ∃ m, run (Miniserver.step C decrypt) m₀ s.received = some m ∧
      m.commands = m₀.commands ++ s.pushedCommands.take s.encrypted.length := by
  obtain ⟨m, hrun, hprefix, -⟩ := h
  obtain ⟨m₁, hreceived, hrest⟩ := exists_run_of_append hrun
  have hm₁ : m₁.commands <+: m₀.commands ++ s.pushedCommands := (Miniserver.run_commands hrest).1.trans hprefix
  refine ⟨m₁, hreceived, ?_⟩
  rw [List.prefix_iff_eq_take.mp hm₁, (Miniserver.run_commands hreceived).2, List.take_length_add_append]
  rfl

/-- While the writer has nothing to write, all that was pushed has arrived. -/
theorem Carried.complete {s : Session σ} (h : Carried decrypt env m₀ s) (hpc : s.pc.outgoing = some []) :
    s.encrypted.length = s.writer.pushed.length := by
  obtain ⟨m, hrun, -, hopen⟩ := h
  rw [hpc, Option.getD_some, List.append_nil] at hrun
  have hcommands := congrArg List.length (hopen (by rw [hpc]; exact Option.some_ne_none _)).2
  rw [(Miniserver.run_commands hrun).2, List.length_append, pushedCommands, List.length_map] at hcommands
  exact Nat.add_left_cancel hcommands

variable [TokenStore σ] (P : Parsers)

theorem Carried.request (hC : C.Lawful) {s : Session σ} (h : Carried decrypt env m₀ s)
    (hpc : s.pc.outgoing = some []) (now : Instant) (kill : KillStep) (cmd : Str) :
    Carried decrypt env m₀ (request env now kill cmd s) := by
  have hd := h.decided hpc fun m hm =>
    Writer.prepareCommand_passes hC hm now cmd (some s.waiters.length)
  obtain ⟨text, salt, pos, -, hprep⟩ :=
    Writer.prepareCommand_total env now hC.toTotal cmd (some s.waiters.length) s.writer
  rw [hprep] at hd
  simp only [Session.request, hprep]
  exact hd.congr rfl id rfl rfl rfl

theorem Carried.step (hC : C.Lawful) {s s' : Session σ} {l : Label} (h : Carried decrypt env m₀ s)
    (hstep : step env P s l = some s') : Carried decrypt env m₀ s' := by
  cases l with
  | takeOut now =>
    obtain ⟨msg, out, hpc, -, rfl⟩ := step_takeOut_inv env P hstep
    exact Carried.decided (s := { s with out }) h (by rw [hpc]; rfl)
      fun m hm => Writer.onWriterMsg_passes hC hm now msg
  | takeCommand now =>
    obtain ⟨c, commands, hpc, -, rfl⟩ := step_takeCommand_inv env P hstep
    exact Carried.decided (s := { s with commands }) h (by rw [hpc]; rfl)
      fun m hm => Writer.onIoCommand_passes hC hm now c
  | keepaliveTick now =>
    obtain ⟨hpc, rfl⟩ := step_keepaliveTick_inv env P hstep
    exact h.decided (by rw [hpc]; rfl) fun m hm => Writer.onKeepaliveTick_passes hm now
  | gracefulClose now =>
    obtain ⟨hpc, rfl | rfl | rfl⟩ := step_gracefulClose_inv env P hstep
    · exact h.lost rfl rfl rfl
    · exact h.lost rfl rfl rfl
    · exact h.request hC (by rw [hpc]; rfl) now _ _
  | answered now =>
    obtain ⟨kill, waiter, hpc, rfl | ⟨token, hash, -, rfl⟩⟩ := step_answered_inv env P hstep
    · exact h.lost rfl rfl rfl
    · exact h.request hC (by rw [hpc]; rfl) now _ _
  | written =>
    simp only [Session.step] at hstep
    split at hstep
    · rename_i text hpc
      cases hstep
      exact h.congr (by rw [hpc]; exact List.append_nil _) (by rw [hpc]; exact fun _ => Option.some_ne_none _)
        rfl rfl rfl
    · rename_i hpc
      cases hstep
      exact h.congr (by rw [hpc]; rfl) (by rw [hpc]; exact fun _ => Option.some_ne_none _) rfl rfl rfl
    · rename_i kill waiter text hpc
      cases hstep
      exact h.congr (by rw [hpc]; exact List.append_nil _) (by rw [hpc]; exact fun _ => Option.some_ne_none _)
        rfl rfl rfl
    · cases hstep
      exact h.lost rfl rfl rfl
    · cases hstep
  | writeFailed arrived =>
    simp only [Session.step] at hstep
    split at hstep
    · rename_i text hpc
      cases hstep
      cases arrived with
      | true => exact h.congr (by rw [hpc]; exact List.append_nil _) (fun hn => absurd rfl hn) rfl rfl rfl
      | false => exact h.lost (List.append_nil _) rfl rfl
    · cases hstep
      exact h.lost rfl rfl rfl
    · rename_i kill waiter text hpc
      cases hstep
      cases arrived with
      | true => exact h.congr (by rw [hpc]; exact List.append_nil _) (fun hn => absurd rfl hn) rfl rfl rfl
      | false => exact h.lost (List.append_nil _) rfl rfl
    · cases hstep
      exact h.lost rfl rfl rfl
    · cases hstep
  | timer =>
    simp only [Session.step] at hstep
    split at hstep
    · rename_i hpc
      cases hstep
      exact h.congr (by rw [hpc]; rfl) (by rw [hpc]; exact fun _ => Option.some_ne_none _) rfl rfl rfl
    · cases hstep
  | expire now =>
    obtain ⟨hpc, rfl⟩ := step_expire_inv env P hstep
    exact h.congr (by rw [hpc]; rfl) (by rw [hpc]; exact fun _ => Option.some_ne_none _) rfl rfl rfl
  | waitElapsed =>
    simp only [Session.step] at hstep
    split at hstep
    · cases hstep
      exact h.lost rfl rfl rfl
    · cases hstep
  | finish =>
    obtain ⟨-, rfl⟩ := step_finish_inv env P hstep
    exact h.lost rfl rfl rfl
  | resolve =>
    obtain ⟨-, payload, -, ⟨pending, -, -, rfl⟩ | ⟨e, rest, r, pending, -, -, -, -, rfl⟩⟩ :=
      step_resolve_inv env P hstep
    · exact h
    · exact h
  -- the other steps are not the writer's
  | _ =>
    simp only [Session.step] at hstep
    repeat' split at hstep
    all_goals
      first
      | cases hstep; exact h
      | cases hstep

end Session

/-! ## The connection -/

/-- Over a connection on which no write of the handshake fails, to a Miniserver
that can open what is encrypted under the public key it gave out: it refuses
nothing of the handshake and has read its commands; and in whatever way the
session then goes, it refuses nothing of that either, and has read, after the
commands of the handshake, the commands that were pushed, in their order, one for
each encrypted text that has arrived. -/
theorem commands_arrive {C : Crates} (hC : C.Lawful) {R : Rsa} {pem : Str} {decrypt : Bytes → Option Bytes}
    (hopens : R.Opens pem decrypt) {η σ : Type} [LoxHandler η] [TokenStore σ] (cfg : ConnectConfig) (world : World)
    (P : Parsers) (w : SessionWorld C σ) {seed : Nat}
    (hwrap : wrapSessionKey R seed pem w.keys.sessionPayload = some (.ok w.sessionB64))
    (hwrites : ∀ r ∈ w.writes, r = none) (sup : Supervisor η σ) :
    let hs := (Handshake.all ⟨world, P, w.keys, cfg⟩ w.sessionB64 (sup.handshakeState w)).2
    (∃ m, run (Miniserver.step C decrypt) .start hs.texts = some m ∧ m.commands = hs.commands.map trimNul) ∧
    ∀ ls s, run (Session.step ⟨world, w.keys, cfg.writer⟩ P) (.init hs.salt hs.pos hs.shared) ls = some s →
      ∃ m, run (Miniserver.step C decrypt) .start (hs.texts ++ s.received) = some m ∧
        m.commands = hs.commands.map trimNul ++ s.pushedCommands.take s.encrypted.length := by
  intro hs
  have hunwrap := unwrapSessionKey_wrap hopens hwrap
  have hlinked : Handshake.Linked ⟨world, P, w.keys, cfg⟩ decrypt hs :=
    Handshake.all_linked (s := sup.handshakeState w) hC hunwrap hwrites rfl rfl rfl
  clear_value hs
  obtain ⟨-, m₀, hrun₀, hfollows, hcommands₀⟩ := hlinked
  refine ⟨⟨m₀, hrun₀, hcommands₀⟩, fun ls s hrun => ?_⟩
  have hcarried : Session.Carried decrypt ⟨world, w.keys, cfg.writer⟩ m₀ s :=
    run_inv (Session.Carried.step P hC) (Session.carried_init hfollows hs.shared) hrun
  obtain ⟨m, hreceived, hcommands⟩ := hcarried.arrived
  exact ⟨m, run_append hrun₀ hreceived, by rw [hcommands, hcommands₀]⟩

/-- A connection whose handshake is cut off after the key exchange. -/
def cutOff : SessionWorld sampleCrates (Option LxToken) :=
  { (Supervisor.closedRound []).session with sessionB64 := b64Encode sampleWrapped }

/-- The state it leaves. -/
def cutOffState : HsState Unit (Option LxToken) :=
  (Handshake.all ⟨sampleWorld, Parsers.rejecting, sampleKeys, Supervisor.sampleConfig⟩ cutOff.sessionB64
    (Supervisor.sampleReconnecting.handshakeState cutOff)).2

theorem commands_arrive_getkey :
    ∃ s m, run (Session.step ⟨sampleWorld, sampleKeys, Supervisor.sampleConfig.writer⟩ Parsers.rejecting)
        (.init cutOffState.salt cutOffState.pos cutOffState.shared)
        [.sendCommand sampleCommand, .takeCommand 0, .written] = some s ∧
      run (Miniserver.step sampleCrates sampleDecrypt) .start (cutOffState.texts ++ s.received) = some m ∧
      m.commands = [sampleCommand] := by
  have hwrap : wrapSessionKey sampleRsa 0 samplePem cutOff.keys.sessionPayload = some (.ok cutOff.sessionB64) :=
    wrapSessionKey_sample normalizePublicKeyPem_sample
  obtain ⟨-, harrive⟩ := commands_arrive sampleCrates_lawful (sampleRsa_opens _) Supervisor.sampleConfig sampleWorld
    Parsers.rejecting cutOff hwrap (List.forall_mem_nil _) Supervisor.sampleReconnecting
  obtain ⟨text, salt, pos, htext, htake⟩ := Session.step_takeEncrypted
    ⟨sampleWorld, sampleKeys, Supervisor.sampleConfig.writer⟩ Parsers.rejecting sampleCrates_lawful.toTotal
    (s := { Session.init cutOffState.salt cutOffState.pos cutOffState.shared with
      commands := [.encrypted sampleCommand 0], waiters := [sampleCommand] }) rfl rfl (by decide) 0
  obtain ⟨s, hrun, hreceived, hpushed⟩ :
      ∃ s, run (Session.step ⟨sampleWorld, sampleKeys, Supervisor.sampleConfig.writer⟩ Parsers.rejecting)
          (.init cutOffState.salt cutOffState.pos cutOffState.shared)
          [.sendCommand sampleCommand, .takeCommand 0, .written] = some s ∧
        s.received = [text] ∧ s.pushedCommands = [sampleCommand] :=
    ⟨_, run_cons.mpr ⟨_, rfl, run_cons.mpr ⟨_, htake, run_cons.mpr ⟨_, rfl, rfl⟩⟩⟩, rfl, rfl⟩
  obtain ⟨m, hm, hcommands⟩ := harrive _ s hrun
  refine ⟨s, m, hrun, hm, ?_⟩
  rw [hcommands, hpushed, Session.encrypted, hreceived, List.filter_singleton, htext]
  rfl

end Lox
