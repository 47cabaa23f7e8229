import LoxWebsocket.Client.Framing

/-!
# Requests that are answered

A request goes out if nothing is in the way of the writes (`request_sent`). If
the next message is its answer, a handler that does not unwind is shown it and
the request returns it (`request_answer`).
-/

namespace Lox

/-- The frames of an answer. -/
def answerFrames (answer : Bytes) : List ReadEvent :=
  [.frame .binary (encodeHeader MessageType.text.toU8 0 0 answer.length), .frame .text answer]

/-- An answer that a header can announce. -/
def Announceable (answer : Bytes) : Prop := answer ≠ [] ∧ answer.length < 2 ^ 32

namespace Handshake

variable {C : Crates} {η σ : Type} [LoxHandler η]

/-- With nothing in the way of the writes, a request is sent and its answer
read. -/
theorem request_sent (env : HandshakeEnv C) (hC : C.Total) (cmd : Str) {s : HsState η σ} (hw : s.writes = []) :
    ∃ salt pos texts, request env cmd s =
      (do
        let resp ← readPayload
        Prog.modify fun s => { s with exchanges := s.exchanges ++ [(cmd, resp)] }
        pure resp : Hs η σ Bytes) { s with salt, pos, texts, commands := s.commands ++ [cmd] } := by
  obtain ⟨text, salt, pos, he⟩ : ∃ text salt pos,
      s.salt.encrypt env.world env.keys s.pos cmd = (.ok text, salt, pos) := by
    obtain ⟨c, -, -, he⟩ := s.salt.encrypt_spec hC env.world env.keys s.pos cmd
    exact ⟨_, _, _, he⟩
  have hencrypt : encrypt env cmd s = (.ok text, { s with salt, pos }) := by
    simp only [encrypt, Prog.tryAct, he]
  have hsend : sendText text { s with salt, pos } = (.ok (), { s with salt, pos, texts := s.texts ++ [text] }) := by
    simp only [sendText, Prog.tryAct, hw]
  refine ⟨salt, pos, s.texts ++ [text], ?_⟩
  unfold request
  rw [Prog.bind_ok hencrypt, Prog.bind_ok hsend]
  rfl

section

variable (hq : LoxHandler.Quiet η) {answer : Bytes} (ha : Announceable answer)

include hq ha

theorem readPayload_answer {s : HsState η σ} {reads : List ReadEvent} (hr : s.reads = answerFrames answer ++ reads)
    (hp : s.handler.panicked = false) :
    ∃ handler, handler.panicked = false ∧ readPayload s = (.ok answer, { s with reads, handler }) := by
  have hexact : ExactHeader (MessageType.text.toU8, answer) (encodeHeader MessageType.text.toU8 0 0 answer.length) :=
    ⟨show MessageType.text.toU8 ≠ MessageType.outOfService.toU8 by decide, ha.2, 0, 0, rfl, rfl⟩
  obtain ⟨hdr, hparse, hest, hid, hlen⟩ := hexact.parse
  obtain ⟨handler, hcall, hp', -⟩ := guard_call hq hp (.onRawPayload hdr.identifier answer)
  refine ⟨handler, hp', ?_⟩
  have hheader : readHeader s = (.ok hdr, { s with reads := .frame .text answer :: reads }) :=
    readHeader_frame hr (.inr rfl) hparse
  have hbody : readBody hdr { s with reads := .frame .text answer :: reads } = (.ok answer, { s with reads }) := by
    rw [readBody, if_neg fun h => ha.1 (hlen.mp h)]
    exact readFrameBytes_frame rfl (.inl rfl)
  change readPayloadLoop (63 + 1) s = _
  rw [readPayloadLoop, Prog.bind_ok hheader, if_neg (by rw [hest]; decide),
    if_neg (by rw [hid]; exact hexact.identifier), Prog.bind_ok hbody, if_pos hid,
    Prog.bind_ok (guarded_ok (s := { s with reads }) hcall)]
  rfl

theorem request_answer (env : HandshakeEnv C) (hC : C.Total) (cmd : Str) {s : HsState η σ} (hw : s.writes = [])
    {reads : List ReadEvent} (hr : s.reads = answerFrames answer ++ reads) (hp : s.handler.panicked = false) :
    ∃ salt pos texts handler, handler.panicked = false ∧ request env cmd s = (.ok answer, { s with
      salt, pos, texts, reads, handler
      commands := s.commands ++ [cmd], exchanges := s.exchanges ++ [(cmd, answer)] }) := by
  obtain ⟨salt, pos, texts, hsent⟩ := request_sent env hC cmd hw
  obtain ⟨handler, hp', hread⟩ := readPayload_answer hq ha
    (s := { s with salt, pos, texts, commands := s.commands ++ [cmd] }) hr hp
  exact ⟨salt, pos, texts, handler, hp', hsent.trans (Prog.bind_ok hread _)⟩

theorem keyExchange_answer {env : HandshakeEnv C}
    (hok : ∃ ll, (parseJson env.parsers answer).bind requireLlOk = .ok ll) (sessionB64 : Str) {s : HsState η σ}
    (hw : s.writes = []) {reads : List ReadEvent} (hr : s.reads = answerFrames answer ++ reads)
    (hp : s.handler.panicked = false) :
    ∃ handler texts, handler.panicked = false ∧
      keyExchange env sessionB64 s = (.ok (), { s with reads, handler, texts }) := by
  have hsend : sendText (cmdKeyExchange ++ sessionB64) s =
      (.ok (), { s with texts := s.texts ++ [cmdKeyExchange ++ sessionB64] }) := by
    simp only [sendText, Prog.tryAct, hw]
  obtain ⟨handler, hp', hread⟩ := readPayload_answer hq ha
    (s := { s with texts := s.texts ++ [cmdKeyExchange ++ sessionB64] }) hr hp
  refine ⟨handler, s.texts ++ [cmdKeyExchange ++ sessionB64], hp', Prog.mapErr_ok ?_ _⟩
  obtain ⟨ll, hll⟩ := hok
  unfold exchange
  rw [Prog.bind_ok hsend, Prog.bind_ok hread]
  cases hroot : parseJson env.parsers answer with
  | error e =>
    rw [hroot] at hll
    cases hll
  | ok root =>
    rw [hroot] at hll
    change (do let _ ← Prog.lift (requireLlOk root); pure () : Hs η σ Unit) _ = _
    change requireLlOk root = .ok ll at hll
    rw [hll]
    rfl

end

end Handshake

end Lox
