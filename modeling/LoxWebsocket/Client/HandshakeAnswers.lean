import LoxWebsocket.Client.Displaced

/-!
# The answers of a handshake

The Miniserver answers every text with one message of type 0, in order, and may
send other messages in between. So the answers are the messages of type 0 of
the stream (`textAnswers`): the first is that of the key exchange, the next ones
those of the commands.

The handshake takes the next one for the answer to what it has just sent. Every
request that is answered has the answer to its own command, whatever the stream
does, if and only if no token is displaced (`ownAnswers_displaced_iff`): a kill
that times out leaves its answer to the next request (`late_getkey_answer`).
-/

namespace Lox

/-- Nothing but messages, failures, timeouts and close frames. -/
def OnlyMessages (reads : List ReadEvent) : Prop :=
  ∀ op payload, .frame op payload ∈ reads → DataOp op ∨ op = .close

/-- The payloads of the data frames. -/
def dataFrames (reads : List ReadEvent) : List Bytes :=
  reads.filterMap fun
    | .frame .text payload | .frame .binary payload => some payload
    | _ => none

/-- The payloads of the messages of type 0. -/
def textAnswers : List Bytes → List Bytes
  | [] => []
  | frame :: frames =>
    match parseHeader frame with
    | .ok (some hdr) =>
      if hdr.isEstimated then textAnswers frames
      else if hdr.len = 0 then
        if hdr.identifier = MessageType.text.toU8 then [] :: textAnswers frames else textAnswers frames
      else
        match frames with
        | [] => []
        | payload :: frames =>
          if hdr.identifier = MessageType.text.toU8 then payload :: textAnswers frames else textAnswers frames
    | _ => textAnswers frames

theorem textAnswers_estimated {frame : Bytes} {hdr : WsBinHdr} (hf : parseHeader frame = .ok (some hdr))
    (he : hdr.isEstimated = true) (frames : List Bytes) : textAnswers (frame :: frames) = textAnswers frames := by
  rw [textAnswers, hf]
  simp only [he, if_true]

/-- What a header announces: no frame, or the next one. -/
def Announced (hdr : WsBinHdr) (payload : Bytes) (frames rest : List Bytes) : Prop :=
  hdr.len = 0 ∧ payload = [] ∧ frames = rest ∨ hdr.len ≠ 0 ∧ frames = payload :: rest

theorem textAnswers_announced {frame payload : Bytes} {hdr : WsBinHdr} (hf : parseHeader frame = .ok (some hdr))
    (he : hdr.isEstimated = false) {frames rest : List Bytes} (h : Announced hdr payload frames rest) :
    textAnswers (frame :: frames) =
      if hdr.identifier = MessageType.text.toU8 then payload :: textAnswers rest else textAnswers rest := by
  rw [textAnswers, hf]
  rcases h with ⟨hlen, rfl, rfl⟩ | ⟨hlen, rfl⟩
  · simp only [he, hlen, if_true, Bool.false_eq_true, if_false]
  · simp only [he, hlen, Bool.false_eq_true, if_false]

namespace Handshake

variable {C : Crates} {η σ : Type}

/-! ## Reading an answer -/

theorem onlyMessages_tail {event : ReadEvent} {reads : List ReadEvent} (h : OnlyMessages (event :: reads)) :
    OnlyMessages reads := fun op payload hm => h op payload (List.mem_cons_of_mem _ hm)

theorem readFrameBytes_data {s : HsState η σ} (h : OnlyMessages s.reads) :
    readFrameBytes.wp (fun frame s' => dataFrames s.reads = frame :: dataFrames s'.reads ∧ OnlyMessages s'.reads)
      (fun _ _ => True) s := by
  unfold Prog.wp
  simp only [readFrameBytes, Prog.tryAct]
  cases hr : s.reads with
  | nil => trivial
  | cons event reads =>
    rw [hr] at h
    cases event with
    | elapsed => trivial
    | failed m => trivial
    | frame op payload =>
      simp only
      split_ifs with hop
      · trivial
      · refine ⟨?_, onlyMessages_tail h⟩
        rcases h op payload List.mem_cons_self with (rfl | rfl) | hclose
        · rfl
        · rfl
        · exact absurd hclose hop

theorem readHeader_data {s : HsState η σ} (h : OnlyMessages s.reads) :
    readHeader.wp (fun hdr s' => OnlyMessages s'.reads ∧
      ∃ frame, parseHeader frame = .ok (some hdr) ∧ dataFrames s.reads = frame :: dataFrames s'.reads)
      (fun _ _ => True) s := by
  unfold readHeader
  rw [Prog.wp_bind]
  refine Prog.wp_mono (readFrameBytes_data h) (fun frame s₁ h₁ => ?_) fun _ _ h => h
  split
  · trivial
  · exact ⟨h₁.2, frame, ‹_›, h₁.1⟩
  · trivial

theorem readBody_data (hdr : WsBinHdr) {s : HsState η σ} (h : OnlyMessages s.reads) :
    (readBody hdr).wp (fun payload s' => OnlyMessages s'.reads ∧
      Announced hdr payload (dataFrames s.reads) (dataFrames s'.reads)) (fun _ _ => True) s := by
  unfold readBody
  split_ifs with hlen
  · exact ⟨h, .inl ⟨hlen, rfl, rfl⟩⟩
  · exact Prog.wp_mono (readFrameBytes_data h) (fun payload s₁ h₁ => ⟨h₁.2, .inr ⟨hlen, h₁.1⟩⟩) fun _ _ h => h

theorem guarded_reads {ρ : Type} (f : Handled η → Option ρ × Handled η) :
    (guarded f : Hs η σ ρ).Keeps fun s s' => s'.reads = s.reads := fun _ => rfl

/-- The payload is the next message of type 0. -/
def NextAnswer (s : HsState η σ) (payload : Bytes) (s' : HsState η σ) : Prop :=
  OnlyMessages s'.reads ∧ textAnswers (dataFrames s.reads) = payload :: textAnswers (dataFrames s'.reads)

theorem readPayloadLoop_nextAnswer [LoxHandler η] (n : Nat) :
    ∀ {s : HsState η σ}, OnlyMessages s.reads → (readPayloadLoop n).wp (NextAnswer s) (fun _ _ => True) s := by
  induction n with
  | zero => exact fun _ => trivial
  | succ n ih =>
    intro s h
    unfold readPayloadLoop
    rw [Prog.wp_bind]
    refine Prog.wp_mono (readHeader_data h) (fun hdr s₁ h₁ => ?_) fun _ _ h => h
    obtain ⟨hmsgs, frame, hf, hframes⟩ := h₁
    split
    · rename_i he
      refine Prog.wp_mono (ih hmsgs) (fun payload s₂ h₂ => ⟨h₂.1, ?_⟩) fun _ _ h => h
      rw [hframes, textAnswers_estimated hf he]
      exact h₂.2
    split
    · trivial
    rename_i he hout
    rw [Prog.wp_bind]
    refine Prog.wp_mono (readBody_data hdr hmsgs) (fun payload s₂ h₂ => ?_) fun _ _ h => h
    have hnext := textAnswers_announced hf (Bool.not_eq_true _ ▸ he) h₂.2
    rw [← hframes] at hnext
    split
    · rename_i ht
      rw [if_pos ht] at hnext
      rw [Prog.wp_bind]
      refine Prog.wp_mono ((guarded_reads _).wp s₂) (fun _ s₃ h₃ => ?_) fun _ _ _ => trivial
      rw [Prog.wp_pure, NextAnswer, h₃]
      exact ⟨h₂.1, hnext⟩
    · rename_i ht
      rw [if_neg ht] at hnext
      rw [Prog.wp_bind]
      refine Prog.wp_mono ((guarded_reads _).wp s₂) (fun _ s₃ h₃ => ?_) fun _ _ _ => trivial
      refine Prog.wp_mono (ih (h₃ ▸ h₂.1)) (fun payload s₄ h₄ => ⟨h₄.1, ?_⟩) fun _ _ h => h
      rw [hnext, ← h₃]
      exact h₄.2

/-! ## The answers of the commands -/

/-- Each answer a request was given is the one to its command: `answers` has
that of the key exchange, then those of the commands in turn. -/
def OwnAnswers (answers : List Bytes) (s : HsState η σ) : Prop :=
  s.exchanges.Sublist (s.commands.zip answers.tail)

/-- Every command has been answered, and the stream goes on with the answers to
the next ones. -/
structure InStep (answers : List Bytes) (s : HsState η σ) : Prop where
  messages : OnlyMessages s.reads
  commands : s.commands = s.exchanges.map Prod.fst
  answers : answers.tail = s.exchanges.map Prod.snd ++ textAnswers (dataFrames s.reads)

theorem zip_map_append {α β : Type} (l : List (α × β)) (as : List α) (bs : List β) :
    (l.map Prod.fst ++ as).zip (l.map Prod.snd ++ bs) = l ++ as.zip bs := by
  rw [List.zip_append (by simp), List.zip_map']
  simp

variable {answers : List Bytes}

theorem InStep.congr {s s' : HsState η σ} (hr : s'.reads = s.reads) (hc : s'.commands = s.commands)
    (he : s'.exchanges = s.exchanges) (h : InStep answers s) : InStep answers s' :=
  ⟨hr ▸ h.messages, by rw [hc, he, h.commands], by rw [hr, he, h.answers]⟩

/-- Some commands have been sent after the last answer. -/
theorem InStep.ownAnswers {s s' : HsState η σ} (h : InStep answers s) (he : s'.exchanges = s.exchanges)
    {sent : List Str} (hc : s'.commands = s.commands ++ sent) : OwnAnswers answers s' := by
  rw [OwnAnswers, he, hc, h.commands, h.answers, zip_map_append]
  exact List.sublist_append_left _ _

theorem InStep.own (s : HsState η σ) (h : InStep answers s) : OwnAnswers answers s :=
  h.ownAnswers rfl (List.append_nil _).symm

/-- The next answer is that of the command just sent. -/
theorem InStep.answered {cmd : Str} {payload : Bytes} {s s' : HsState η σ} (h : InStep answers s)
    (hn : NextAnswer s payload s') : InStep answers { s with
      reads := s'.reads, handler := s'.handler, commands := s.commands ++ [cmd]
      exchanges := s.exchanges ++ [(cmd, payload)] } where
  messages := hn.1
  commands := by rw [List.map_append, h.commands]; rfl
  answers := by
    rw [h.answers, hn.2, List.map_append, List.append_assoc]
    rfl

section

variable [LoxHandler η] (env : HandshakeEnv C)

theorem request_inStep (cmd : Str) :
    (request env cmd : Hs η σ Bytes).Upholds (InStep answers) fun _ s' => OwnAnswers answers s' := by
  have hencrypt : (encrypt env cmd : Hs η σ Str).Upholds (InStep answers) fun _ s' => OwnAnswers answers s' :=
    Prog.Keeps.upholds (R := fun s s' => s' = { s with salt := s'.salt, pos := s'.pos }) (fun _ => rfl)
      (fun s s' h => InStep.congr (by rw [h]) (by rw [h]) (by rw [h])) fun _ => InStep.own
  have hsend (text : Str) : (sendText text : Hs η σ Unit).Upholds (InStep answers) fun _ s' => OwnAnswers answers s' :=
    (sendText_onlyWrites text).upholds (fun s s' h => InStep.congr (by rw [h]) (by rw [h]) (by rw [h]))
      fun _ => InStep.own
  refine hencrypt.bind fun text => (hsend text).bind fun _ s hs => ?_
  rw [Prog.wp_bind, Prog.wp_modify, Prog.wp_bind]
  refine Prog.wp_mono (Prog.wp_and (readPayloadLoop_nextAnswer maxInterleavedFrames
    (s := { s with commands := s.commands ++ [cmd] }) hs.messages) ((readPayloadLoop_onlyReads _).wp _))
    (fun payload s₁ h₁ => ?_) fun _ s₁ h₁ => ?_
  · rw [Prog.wp_bind, Prog.wp_modify, Prog.wp_pure, h₁.2]
    exact hs.answered h₁.1
  · have hc : s₁.commands = s.commands ++ [cmd] := by rw [h₁.2]
    exact hs.ownAnswers (by rw [h₁.2]) hc

theorem contract_inStep : Contract env (InStep (η := η) (σ := σ) answers) fun _ s' => OwnAnswers answers s' where
  fails _ := InStep.own
  inStep _ _ _ h := h
  congr _ _ := InStep.congr
  request := request_inStep env

theorem keyExchange_inStep (sessionB64 : Str) {s : HsState η σ} (hm : OnlyMessages s.reads) (hc : s.commands = [])
    (he : s.exchanges = []) :
    (keyExchange env sessionB64).wp (fun _ s' => InStep (textAnswers (dataFrames s.reads)) s')
      (fun _ s' => OwnAnswers (textAnswers (dataFrames s.reads)) s') s := by
  have hanswer : (keyExchange env sessionB64).wp (fun _ s' => ∃ payload, NextAnswer s payload s')
      (fun _ _ => True) s := by
    rw [keyExchange, inStep, Prog.wp_mapErr, exchange, Prog.wp_bind]
    refine Prog.wp_mono ((sendText_onlyWrites _).wp s) (fun _ s₁ h₁ => ?_) fun _ _ _ => trivial
    rw [Prog.wp_bind]
    refine Prog.wp_mono (readPayloadLoop_nextAnswer maxInterleavedFrames (by rw [h₁]; exact hm))
      (fun payload s₂ h₂ => ?_) fun _ _ h => h
    have hr : s₁.reads = s.reads := by rw [h₁]
    rw [Prog.wp_bind, Prog.wp_lift]
    refine ⟨fun root _ => ?_, fun _ _ => trivial⟩
    rw [Prog.wp_bind, Prog.wp_lift]
    exact ⟨fun _ _ => ⟨payload, h₂.1, hr ▸ h₂.2⟩, fun _ _ => trivial⟩
  refine Prog.wp_mono (Prog.wp_and hanswer ((keyExchange_onlyTalks env sessionB64).wp s)) (fun _ s' h => ?_)
    fun _ s' h => ?_
  · obtain ⟨⟨payload, hmsgs, hnext⟩, htalks⟩ := h
    refine ⟨hmsgs, ?_, ?_⟩
    · rw [htalks, hc, he]; rfl
    · rw [hnext, htalks, he]; rfl
  · rw [OwnAnswers, h.2, he]
    exact List.nil_sublist _

/-- The answer to `getkey2` is refused. -/
theorem acquireToken_refused {e : Error} {resp : Bytes} {s s' : HsState η σ}
    (h : request env (cmdGetkey2 env.cfg.username) s = (.ok resp, s'))
    (hb : buildAcquireTokenCmd env.parsers resp env.cfg.username env.cfg.password env.cfg.tokenPermission
      env.cfg.clientUuid env.cfg.clientInfo = .error e) :
    acquireToken env none s = (.error (e.inStep "getkey2".toList), s') := by
  have hlift : (Prog.lift (buildAcquireTokenCmd env.parsers resp env.cfg.username env.cfg.password
      env.cfg.tokenPermission env.cfg.clientUuid env.cfg.clientInfo) : Hs η σ _) s' = (.error e, s') := by
    rw [hb]; rfl
  exact (Prog.bind_ok (Prog.mapErr_ok h _) _).trans (Prog.bind_error (Prog.mapErr_error hlift _) _)

end

end Handshake

namespace Supervisor

open Handshake

variable {σ : Type} [TokenStore σ]

/-- The kill times out, and its answer comes after that. -/
def killAnsweredLate (pos : Pos) : SessionWorld sampleCrates σ :=
  displacingSession pos (acceptedFrames ++ .elapsed :: acceptedFrames)

/-- What its handshake leaves. -/
def lateHandshake (cfg : ConnectConfig) (world : World) (pos : Pos) (shared : SharedState σ) : HsState Unit σ :=
  (Handshake.all ⟨world, .accepting, sampleKeys, cfg⟩ "AAECAw==".toList
    ((displacing shared).handshakeState (killAnsweredLate pos))).2

/-- The late answer to `getkey` is taken for that of `getkey2`. -/
theorem lateHandshake_eq (cfg : ConnectConfig) {world : World} {pos : Pos} {shared : SharedState σ}
    (hd : Displaces world pos shared) :
    (lateHandshake cfg world pos shared).commands = [cmdGetKey, cmdGetkey2 cfg.username] ∧
      (lateHandshake cfg world pos shared).exchanges = [(cmdGetkey2 cfg.username, acceptedAnswer)] := by
  have hC := sampleCrates_lawful.toTotal
  obtain ⟨s₁, hreads, hwrites, hp, hcommands, hexchanges, hall⟩ := all_displaces
    ⟨world, .accepting, sampleKeys, cfg⟩ rfl hC
    (s := (displacing shared).handshakeState (killAnsweredLate pos)) hd rfl rfl rfl
  obtain ⟨salt, pos', texts, handler, -, hreq⟩ := request_answer LoxHandler.quiet_unit announceable_acceptedAnswer
    ⟨world, .accepting, sampleKeys, cfg⟩ hC (cmdGetkey2 cfg.username) hwrites hreads hp
  have hend := hall _ _ (acquireToken_refused _ hreq rfl)
  rw [lateHandshake, hend]
  constructor
  · change s₁.commands ++ [cmdGetkey2 cfg.username] = _
    rw [hcommands]
    rfl
  · change s₁.exchanges ++ [(cmdGetkey2 cfg.username, acceptedAnswer)] = _
    rw [hexchanges]
    rfl

omit [TokenStore σ] in
theorem onlyMessages_killAnsweredLate (pos : Pos) :
    OnlyMessages (killAnsweredLate pos : SessionWorld sampleCrates σ).reads := by
  intro op payload hm
  simp only [killAnsweredLate, displacingSession, acceptedFrames, List.cons_append, List.nil_append,
    List.mem_cons, ReadEvent.frame.injEq, List.not_mem_nil, or_false, reduceCtorEq, false_or] at hm
  rcases hm with ⟨rfl, -⟩ | ⟨rfl, -⟩ | ⟨rfl, -⟩ | ⟨rfl, -⟩
  all_goals simp [DataOp]

omit [TokenStore σ] in
theorem textAnswers_killAnsweredLate (pos : Pos) :
    textAnswers (dataFrames (killAnsweredLate pos : SessionWorld sampleCrates σ).reads) =
      [acceptedAnswer, acceptedAnswer] := rfl

theorem not_ownAnswers_killAnsweredLate (cfg : ConnectConfig) {world : World} {pos : Pos} {shared : SharedState σ}
    (hd : Displaces world pos shared) :
    ¬ OwnAnswers (textAnswers (dataFrames (killAnsweredLate pos : SessionWorld sampleCrates σ).reads))
      (lateHandshake cfg world pos shared) := by
  obtain ⟨hcommands, hexchanges⟩ := lateHandshake_eq cfg hd
  rw [textAnswers_killAnsweredLate, OwnAnswers, hcommands, hexchanges]
  intro h
  have hcmd : cmdGetkey2 cfg.username = cmdGetKey :=
    congrArg Prod.fst (List.mem_singleton.mp (h.subset (List.mem_singleton.mpr rfl)))
  have hlen := congrArg List.length hcmd
  have hlong : (cmdGetkey2 cfg.username).length = 17 + cfg.username.length := List.length_append
  have hshort : cmdGetKey.length = 15 := rfl
  omega

/-- Every request of a handshake that is answered has the answer to its own
command, whatever the Miniserver sends beside its answers and whenever, if and
only if no token is displaced when the session connects. -/
theorem ownAnswers_displaced_iff (cfg : ConnectConfig) (world : World) (pos : Pos) (shared : SharedState σ) :
    (∀ (C : Crates) (P : Parsers) (η : Type) [LoxHandler η] (w : SessionWorld C σ) (s : Supervisor η σ),
        w.pos = pos → s.shared = shared → OnlyMessages w.reads →
        OwnAnswers (textAnswers (dataFrames w.reads))
          (Handshake.all ⟨world, P, w.keys, cfg⟩ w.sessionB64 (s.handshakeState w)).2) ↔
      ¬ Displaces world pos shared := by
  refine ⟨fun h hd => ?_, fun hd C P η _ w s hpos hshared hm => ?_⟩
  · exact not_ownAnswers_killAnsweredLate cfg hd
      (h _ _ _ (killAnsweredLate pos) (displacing shared) rfl rfl (onlyMessages_killAnsweredLate pos))
  · have hall := all_wp (contract_inStep ⟨world, P, w.keys, cfg⟩)
      (keyExchange_inStep ⟨world, P, w.keys, cfg⟩ w.sessionB64 (s := s.handshakeState w) hm rfl rfl)
      (by rw [← hpos, ← hshared] at hd; exact hd)
    exact Prog.of_wp (Prog.wp_mono hall (fun _ s' => InStep.own s') fun _ _ h => h)

/-- The late answer of the sample client's kill. -/
theorem late_getkey_answer :
    let s := lateHandshake sampleConfig sampleWorld Pos.start expiredToken
    s.commands = ["jdev/sys/getkey".toList, "jdev/sys/getkey2/admin".toList] ∧
      s.exchanges = [("jdev/sys/getkey2/admin".toList, acceptedAnswer)] ∧
      ¬ OwnAnswers (textAnswers (dataFrames (killAnsweredLate Pos.start : SessionWorld sampleCrates
        (Option LxToken)).reads)) s := by
  obtain ⟨hcommands, hexchanges⟩ := lateHandshake_eq sampleConfig displaces_expiredToken
  exact ⟨hcommands, hexchanges, not_ownAnswers_killAnsweredLate sampleConfig displaces_expiredToken⟩

end Supervisor

end Lox
