import LoxWebsocket.Client.Reader

/-!
# Framing across the hand-over from the handshake to the reader

A Miniserver's messages on the wire (`Stream`): a header frame, then a payload
frame unless the payload is empty, with any number of estimated headers, or of
frames that are no header, in front of a header. The handshake and the reader
frame such a stream alike: whatever number of answers the handshake has read,
the messages it and the reader give to the handler are those of the stream, in
order, each once (`framing_hand_over`).

`Saw` says which messages a handler has been given between two states;
`readPayloadLoop_saw` is the handshake's part, `run_saw` the reader's.
-/

namespace Lox

/-- A message: its identifier and payload. -/
abbrev Msg := UInt8 × Bytes

/-- An event table, by its identifier. -/
def isEventTable (m : Msg) : Bool := [1, 2, 3, 4, 7].contains m.1

theorem isSome_eventCalls (msgType : UInt8) (payload : Bytes) :
    (eventCalls msgType payload).isSome = isEventTable (msgType, payload) := by
  simp only [eventCalls, MessageType.fromU8, isEventTable]
  split_ifs <;> simp_all

/-- A data frame. -/
def DataOp (op : OpCode) : Prop := op = .text ∨ op = .binary

/-- A header frame that an exact one follows, or a frame that is no header. -/
def Skipped (frame : Bytes) : Prop :=
  parseHeader frame = .ok none ∨ ∃ hdr, parseHeader frame = .ok (some hdr) ∧ hdr.isEstimated = true

/-- The exact header of a message. -/
structure ExactHeader (m : Msg) (frame : Bytes) : Prop where
  identifier : m.1 ≠ MessageType.outOfService.toU8
  length : m.2.length < 2 ^ 32
  frame : ∃ info reserved, info &&& WsBinHdr.infoEstimated = 0 ∧
    frame = encodeHeader m.1 info reserved m.2.length

/-- Messages as frames. -/
inductive Stream : List Msg → List ReadEvent → Prop
  | nil : Stream [] []
  | skip {ms : List Msg} {es : List ReadEvent} {op : OpCode} {frame : Bytes} (hop : DataOp op)
      (hf : Skipped frame) (h : Stream ms es) : Stream ms (.frame op frame :: es)
  | empty {ms : List Msg} {es : List ReadEvent} {op : OpCode} {frame : Bytes} {id : UInt8}
      (hop : DataOp op) (hf : ExactHeader (id, []) frame) (h : Stream ms es) :
      Stream ((id, []) :: ms) (.frame op frame :: es)
  | message {ms : List Msg} {es : List ReadEvent} {op op' : OpCode} {frame payload : Bytes} {id : UInt8}
      (hop : DataOp op) (hop' : DataOp op') (hne : payload ≠ []) (hf : ExactHeader (id, payload) frame)
      (h : Stream ms es) : Stream ((id, payload) :: ms) (.frame op frame :: .frame op' payload :: es)

theorem DataOp.ne_close {op : OpCode} (h : DataOp op) : op ≠ .close := by
  rcases h with rfl | rfl <;> decide

/-- What the exact header of a message parses to. -/
theorem ExactHeader.parse {m : Msg} {frame : Bytes} (h : ExactHeader m frame) :
    ∃ hdr, parseHeader frame = .ok (some hdr) ∧ hdr.isEstimated = false ∧ hdr.identifier = m.1 ∧
      (hdr.len = 0 ↔ m.2 = []) := by
  obtain ⟨info, reserved, hi, rfl⟩ := h.frame
  refine ⟨_, parseHeader_encode _ _ _ h.length, by simp [WsBinHdr.isEstimated, hi], rfl, ?_⟩
  rw [← UInt32.toNat_inj, ← List.length_eq_zero_iff]
  have := h.length
  rw [UInt32.toNat_ofNat', show (0 : UInt32).toNat = 0 from rfl]
  omega

/-! ## What a handler has been given -/

variable {η : Type} [LoxHandler η]

/-- The handler was given the messages `l`, and has not unwound. -/
structure Saw (l : List Msg) (g g' : HandlerGuard η) : Prop where
  panicked : g'.panicked = g.panicked
  raw : rawPayloads g'.calls = rawPayloads g.calls ++ l
  events : g'.dispatched.filter isEventTable = g.dispatched.filter isEventTable ++ l.filter isEventTable

omit [LoxHandler η] in
theorem Saw.refl (g : HandlerGuard η) : Saw [] g g := ⟨rfl, by simp, by simp⟩

omit [LoxHandler η] in
theorem Saw.trans {l m : List Msg} {g g' g'' : HandlerGuard η} (h : Saw l g g') (h' : Saw m g' g'') :
    Saw (l ++ m) g g'' :=
  ⟨h'.panicked.trans h.panicked, by rw [h'.raw, h.raw, List.append_assoc],
    by rw [h'.events, h.events, List.filter_append, List.append_assoc]⟩

/-- A call that is not `onRawPayload`. -/
theorem guard_call (hq : LoxHandler.Quiet η) {g : HandlerGuard η} (hg : g.panicked = false) (c : Call) :
    ∃ g', g.guardOrFail (Handled.call c) = (.ok (), g') ∧ g'.panicked = false ∧
      g'.calls = g.calls ++ [c] ∧ g'.dispatched = g.dispatched := by
  obtain ⟨handler, hc⟩ := g.toHandled.call_quiet hq c
  refine ⟨⟨⟨handler, g.calls ++ [c], g.dispatched⟩, false⟩, ?_, rfl, rfl, rfl⟩
  simp only [HandlerGuard.guardOrFail, HandlerGuard.guard, hg, hc]
  rfl

/-- A message and its event table. -/
theorem guard_rawThenEvent (hq : LoxHandler.Quiet η) {g : HandlerGuard η} (hg : g.panicked = false)
    (m : Msg) :
    ∃ g', g.guardOrFail (rawThenEvent m.1 m.2) = (.ok (isEventTable m), g') ∧ Saw [m] g g' := by
  obtain ⟨h', he, hr, hd⟩ := rawThenEvent_quiet hq m.1 m.2 g.toHandled
  refine ⟨⟨h', false⟩, ?_, hg.symm, hr, ?_⟩
  · simp only [HandlerGuard.guardOrFail, HandlerGuard.guard, hg, he, isSome_eventCalls]
    rfl
  · rw [hd, List.filter_append]

/-- A text message during the handshake, which is no event table. -/
theorem guard_raw (hq : LoxHandler.Quiet η) {g : HandlerGuard η} (hg : g.panicked = false) {m : Msg}
    (hm : isEventTable m = false) :
    ∃ g', g.guardOrFail (Handled.call (.onRawPayload m.1 m.2)) = (.ok (), g') ∧ Saw [m] g g' := by
  obtain ⟨g', he, hp, hc, hd⟩ := guard_call hq hg (.onRawPayload m.1 m.2)
  refine ⟨g', he, hp.trans hg.symm, ?_, ?_⟩
  · rw [hc, rawPayloads_append]; rfl
  · rw [hd]; simp [hm]

/-! ## The handshake -/

namespace Handshake

variable {σ : Type}

omit [LoxHandler η] in
theorem guarded_ok {ρ : Type} {f : Handled η → Option ρ × Handled η} {s : HsState η σ} {r : ρ}
    {g : HandlerGuard η} (he : s.handler.guardOrFail f = (.ok r, g)) :
    guarded f s = (.ok r, { s with handler := g }) := by
  simp only [guarded, Prog.tryAct, he]

omit [LoxHandler η] in
theorem readFrameBytes_frame {s : HsState η σ} {op : OpCode} {b : Bytes} {es : List ReadEvent}
    (hs : s.reads = .frame op b :: es) (hop : DataOp op) :
    readFrameBytes s = (.ok b, { s with reads := es }) := by
  simp only [readFrameBytes, Prog.tryAct, hs, if_neg hop.ne_close]

omit [LoxHandler η] in
/-- A header is read, whatever it announces; another frame is an error. -/
theorem readHeader_frame {s : HsState η σ} {op : OpCode} {b : Bytes} {es : List ReadEvent}
    (hs : s.reads = .frame op b :: es) (hop : DataOp op) {hdr : WsBinHdr}
    (hb : parseHeader b = .ok (some hdr)) : readHeader s = (.ok hdr, { s with reads := es }) := by
  rw [readHeader, Prog.bind_apply, readFrameBytes_frame hs hop]
  simp only [hb]
  rfl

omit [LoxHandler η] in
theorem readHeader_junk {s : HsState η σ} {op : OpCode} {b : Bytes} {es : List ReadEvent}
    (hs : s.reads = .frame op b :: es) (hop : DataOp op) (hb : parseHeader b = .ok none) :
    ∃ e, readHeader s = (.error e, { s with reads := es }) := by
  rw [readHeader, Prog.bind_apply, readFrameBytes_frame hs hop]
  simp only [hb]
  exact ⟨_, rfl⟩

omit [LoxHandler η] in
theorem readHeader_nil {s : HsState η σ} (hs : s.reads = []) :
    readHeader s = (.error (.timeout "handshake response".toList), s) := by
  have h : readFrameBytes s = (.error (.timeout "handshake response".toList), s) := by
    simp only [readFrameBytes, Prog.tryAct, hs]
  rw [readHeader, Prog.bind_apply, h]

/-- On a stream the loop gives the handler a part of the messages in order, up
to the answer, and leaves the stream of the others. -/
theorem readPayloadLoop_saw (hq : LoxHandler.Quiet η) (n : Nat) :
    ∀ {ms : List Msg} {s : HsState η σ}, Stream ms s.reads → s.handler.panicked = false →
      (readPayloadLoop n).wp
        (fun _ s' => ∃ ms₁ ms₂, ms = ms₁ ++ ms₂ ∧ Stream ms₂ s'.reads ∧ Saw ms₁ s.handler s'.handler)
        (fun _ _ => True) s := by
  induction n with
  | zero => intros; trivial
  | succ n ih =>
    intro ms s hst hg
    -- one message, from the state `s₁` in which its header and payload have been read
    have deliver : ∀ {ms : List Msg} {m : Msg} {s₁ : HsState η σ}, s₁.handler = s.handler →
        Stream ms s₁.reads →
        Prog.wp (if m.1 = MessageType.text.toU8 then do
            guarded fun h => h.call (.onRawPayload m.1 m.2)
            pure m.2
          else do
            let _ ← guarded fun h => rawThenEvent m.1 m.2 h
            readPayloadLoop n : Hs η σ Bytes)
          (fun _ s' => ∃ ms₁ ms₂, m :: ms = ms₁ ++ ms₂ ∧ Stream ms₂ s'.reads ∧
            Saw ms₁ s.handler s'.handler)
          (fun _ _ => True) s₁ := by
      intro ms m s₁ hh hst
      have hg₁ : s₁.handler.panicked = false := by rw [hh]; exact hg
      split
      · rename_i ht
        obtain ⟨g', he, hsaw⟩ := guard_raw hq hg₁ (m := m) (by rw [isEventTable, ht]; rfl)
        rw [Prog.wp_bind, Prog.wp_ok (guarded_ok he), Prog.wp_pure]
        exact ⟨[m], ms, rfl, hst, hh ▸ hsaw⟩
      · obtain ⟨g', he, hsaw⟩ := guard_rawThenEvent hq hg₁ m
        rw [Prog.wp_bind, Prog.wp_ok (guarded_ok he)]
        have hp : g'.panicked = false := hsaw.panicked.trans hg₁
        refine Prog.wp_mono (ih (s := { s₁ with handler := g' }) hst hp) ?_ fun _ _ h => h
        rintro _ s' ⟨ms₁, ms₂, rfl, hst', hsaw'⟩
        exact ⟨m :: ms₁, ms₂, rfl, hst', (hh ▸ hsaw).trans hsaw'⟩
    unfold readPayloadLoop
    rw [Prog.wp_bind]
    generalize hes : s.reads = es at hst
    cases hst with
    | nil =>
      rw [Prog.wp_error (readHeader_nil hes)]
      trivial
    | skip hop hf h =>
      rcases hf with hf | ⟨hdr, hf, hest⟩
      · obtain ⟨e, he⟩ := readHeader_junk hes hop hf
        rw [Prog.wp_error he]
        trivial
      · rw [Prog.wp_ok (readHeader_frame hes hop hf), if_pos hest]
        exact ih h hg
    | empty hop hf h =>
      obtain ⟨hdr, hp, hest, hid, hlen⟩ := hf.parse
      have hlen : hdr.len = 0 := hlen.mpr rfl
      rw [Prog.wp_ok (readHeader_frame hes hop hp), if_neg (by simp [hest]), hid,
        if_neg hf.identifier, Prog.wp_bind, readBody, if_pos hlen, Prog.wp_pure]
      exact deliver (m := (_, [])) rfl h
    | message hop hop' hne hf h =>
      obtain ⟨hdr, hp, hest, hid, hlen⟩ := hf.parse
      have hlen : ¬ hdr.len = 0 := fun h => hne (hlen.mp h)
      rw [Prog.wp_ok (readHeader_frame hes hop hp), if_neg (by simp [hest]), hid,
        if_neg hf.identifier, Prog.wp_bind, readBody, if_neg hlen, Prog.wp_ok (readFrameBytes_frame rfl hop')]
      exact deliver (m := (_, _)) rfl h

/-- `k` answers read one after the other. -/
def readPayloads : Nat → Hs η σ Unit
  | 0 => pure ()
  | k + 1 => do
    let _ ← readPayload
    readPayloads k

theorem readPayloads_saw (hq : LoxHandler.Quiet η) (k : Nat) :
    ∀ {ms : List Msg} {s : HsState η σ}, Stream ms s.reads → s.handler.panicked = false →
      (readPayloads k).wp
        (fun _ s' => ∃ ms₁ ms₂, ms = ms₁ ++ ms₂ ∧ Stream ms₂ s'.reads ∧ Saw ms₁ s.handler s'.handler)
        (fun _ _ => True) s := by
  induction k with
  | zero => exact fun {ms s} hst _ => ⟨[], ms, rfl, hst, Saw.refl _⟩
  | succ k ih =>
    intro ms s hst hg
    unfold readPayloads
    rw [Prog.wp_bind]
    refine Prog.wp_mono (readPayloadLoop_saw hq _ hst hg) ?_ fun _ _ h => h
    rintro _ s₁ ⟨ms₁, ms₂, rfl, hst₁, hsaw₁⟩
    refine Prog.wp_mono (ih hst₁ (hsaw₁.panicked.trans hg)) ?_ fun _ _ h => h
    rintro _ s₂ ⟨ms₃, ms₄, rfl, hst₂, hsaw₂⟩
    exact ⟨ms₁ ++ ms₃, ms₄, (List.append_assoc _ _ _).symm, hst₂, hsaw₁.trans hsaw₂⟩

end Handshake

/-! ## The reader -/

namespace Reader

variable {C : Crates} (keys : SessionKeys C) (P : Parsers)

omit [LoxHandler η] in
theorem guarded_ok {ρ : Type} {f : Handled η → Option ρ × Handled η} {s : ReaderState η} {r : ρ}
    {g : HandlerGuard η} (he : s.handler.guardOrFail f = (.ok r, g)) :
    guarded f s = (.ok r, { s with handler := g }) := by
  simp only [guarded, Prog.tryAct, he]

/-- A call other than `onRawPayload` shows the handler no message. -/
theorem guarded_call (hq : LoxHandler.Quiet η) {s : ReaderState η} (hg : s.handler.panicked = false)
    (c : Call) (hc : rawPayloads [c] = []) :
    (guarded (Handled.call c)).wp (fun _ s' => Saw [] s.handler s'.handler ∧ s'.expect = s.expect)
      (fun _ _ => False) s := by
  obtain ⟨g', he, hp, hcalls, hd⟩ := guard_call hq hg c
  rw [Prog.wp_ok (guarded_ok he)]
  refine ⟨⟨hp.trans hg.symm, ?_, by rw [hd]; simp⟩, rfl⟩
  rw [hcalls, rawPayloads_append, hc]

theorem onTextMessage_saw (hq : LoxHandler.Quiet η) {s : ReaderState η} (hg : s.handler.panicked = false)
    (payload : Bytes) :
    (onTextMessage keys P payload).wp (fun _ s' => Saw [] s.handler s'.handler ∧ s'.expect = s.expect)
      (fun _ _ => False) s := by
  unfold onTextMessage
  rw [Prog.wp_bind, Prog.wp_get]
  rcases resolveText keys s.shared.pending payload with ⟨_ | resolved, pending⟩
  · rw [Prog.wp_bind, Prog.wp_modify]
    exact guarded_call hq (s := { s with shared := { s.shared with pending } }) hg (.onJson payload) rfl
  · rw [Prog.wp_bind, Prog.wp_modify, Prog.wp_modify]
    simp only [releaseVisu]
    split_ifs <;> exact ⟨Saw.refl _, rfl⟩

theorem dispatch_saw (hq : LoxHandler.Quiet η) {s : ReaderState η} (hg : s.handler.panicked = false)
    (m : Msg) :
    (dispatch keys P m.1 m.2).wp (fun _ s' => Saw [m] s.handler s'.handler ∧ s'.expect = s.expect)
      (fun _ _ => False) s := by
  obtain ⟨g', he, hsaw⟩ := guard_rawThenEvent hq hg m
  have hg' : g'.panicked = false := hsaw.panicked.trans hg
  -- the message has been shown; what is left shows no other
  have after : ∀ {x : Rd η Unit}, x.wp (fun _ s' => Saw [] g' s'.handler ∧ s'.expect = s.expect)
      (fun _ _ => False) { s with handler := g' } →
      x.wp (fun _ s' => Saw [m] s.handler s'.handler ∧ s'.expect = s.expect) (fun _ _ => False)
        { s with handler := g' } := fun h =>
    Prog.wp_mono h (fun _ s' h => ⟨by simpa using hsaw.trans h.1, h.2⟩) fun _ _ h => h
  unfold dispatch
  rw [Prog.wp_bind, Prog.wp_ok (guarded_ok he)]
  split
  · exact after ⟨Saw.refl _, rfl⟩
  split
  · exact after (onTextMessage_saw keys P hq hg' m.2)
  · refine after ?_
    rw [Prog.wp_bind, Prog.wp_modify]
    exact guarded_call hq hg' .onKeepalive rfl
  · exact after ⟨Saw.refl _, rfl⟩

/-! One frame: the messages it completes, and what is expected next. -/

/-- A frame that completes the messages `l`, after which `next` is expected. -/
def Takes (frame : Bytes) (l : List Msg) (next : FrameExpect → Prop) (s : ReaderState η) : Prop :=
  (onDataFrame keys P frame).wp
    (fun outcome s' => outcome = none ∧ Saw l s.handler s'.handler ∧ next s'.expect) (fun _ _ => False) s

/-- Whether a header is expected. -/
def AtHeader (expect : FrameExpect) : Prop := ∃ announced, expect = .header announced

theorem dispatch_takes (hq : LoxHandler.Quiet η) {s : ReaderState η} (hg : s.handler.panicked = false)
    (m : Msg) :
    (do dispatch keys P m.1 m.2; setExpect .start; pure none : Rd η (Option ReadOutcome)).wp
      (fun outcome s' => outcome = none ∧ Saw [m] s.handler s'.handler ∧ AtHeader s'.expect)
      (fun _ _ => False) s := by
  rw [Prog.wp_bind]
  refine Prog.wp_mono (dispatch_saw keys P hq hg m) (fun _ s' h => ?_) fun _ _ h => h
  rw [Prog.wp_bind]
  exact ⟨rfl, h.1, 0, rfl⟩

theorem takes_skipped {s : ReaderState η} (hs : AtHeader s.expect) {frame : Bytes}
    (hf : Skipped frame) : Takes keys P frame [] AtHeader s := by
  obtain ⟨announced, hs⟩ := hs
  unfold Takes onDataFrame
  rw [Prog.wp_bind, Prog.wp_get, hs]
  show Prog.wp (onHeader keys P frame) _ _ s
  rcases hf with hf | ⟨hdr, hf, hest⟩
  · simp only [onHeader, hf]
    exact ⟨rfl, Saw.refl _, announced, hs⟩
  · simp only [onHeader, hf, hest]
    exact ⟨rfl, Saw.refl _, hdr.len, rfl⟩

theorem takes_empty (hq : LoxHandler.Quiet η) {s : ReaderState η} (hs : AtHeader s.expect)
    (hg : s.handler.panicked = false) {id : UInt8} {frame : Bytes} (hf : ExactHeader (id, []) frame) :
    Takes keys P frame [(id, [])] AtHeader s := by
  obtain ⟨announced, hs⟩ := hs
  obtain ⟨hdr, hp, hest, hid, hlen⟩ := hf.parse
  unfold Takes onDataFrame
  rw [Prog.wp_bind, Prog.wp_get, hs]
  show Prog.wp (onHeader keys P frame) _ _ s
  simp only [onHeader, hp, hest, hid, if_neg hf.identifier, if_pos (hlen.mpr rfl)]
  exact dispatch_takes keys P hq hg (id, [])

theorem takes_header {s : ReaderState η} (hs : AtHeader s.expect) {id : UInt8} {payload frame : Bytes}
    (hf : ExactHeader (id, payload) frame) (hne : payload ≠ []) :
    Takes keys P frame [] (fun next => ∃ len, next = .payload id len) s := by
  obtain ⟨announced, hs⟩ := hs
  obtain ⟨hdr, hp, hest, hid, hlen⟩ := hf.parse
  unfold Takes onDataFrame
  rw [Prog.wp_bind, Prog.wp_get, hs]
  show Prog.wp (onHeader keys P frame) _ _ s
  simp only [onHeader, hp, hest, hid, if_neg hf.identifier, if_neg fun h => hne (hlen.mp h)]
  exact ⟨rfl, Saw.refl _, hdr.len, rfl⟩

theorem takes_payload (hq : LoxHandler.Quiet η) {s : ReaderState η} {id : UInt8} {len : UInt32}
    (hs : s.expect = .payload id len) (hg : s.handler.panicked = false) (payload : Bytes) :
    Takes keys P payload [(id, payload)] AtHeader s := by
  unfold Takes onDataFrame
  rw [Prog.wp_bind, Prog.wp_get, hs]
  exact dispatch_takes keys P hq hg (id, payload)

theorem run_data {op : OpCode} (hop : DataOp op) {shared : ReaderShared} {frame : Bytes} {l : List Msg}
    {next : FrameExpect → Prop} {s : ReaderState η} (h : Takes keys P frame l next { s with shared })
    (rest : List (ReaderShared × ReadEvent)) :
    ∃ s', run keys P ((shared, .frame op frame) :: rest) s = run keys P rest s' ∧
      Saw l s.handler s'.handler ∧ next s'.expect := by
  obtain ⟨outcome, s', he, rfl, hsaw, hnext⟩ := Prog.exists_ok_of_wp h
  refine ⟨s', ?_, hsaw, hnext⟩
  rcases hop with rfl | rfl <;> simp only [run, he]

/-- On a stream, whatever the others do between its frames, the reader gives the
handler its messages, and ends only when nothing more comes. -/
theorem run_saw (hq : LoxHandler.Quiet η) {ms : List Msg} {es : List ReadEvent} (hst : Stream ms es) :
    ∀ {rest : List (ReaderShared × ReadEvent)} {s : ReaderState η}, rest.map Prod.snd = es →
      AtHeader s.expect → s.handler.panicked = false →
      (run keys P rest s).1 = .idleTimeout ∧ Saw ms s.handler (run keys P rest s).2.handler := by
  induction hst with
  | nil =>
    intro rest s hr _ _
    rw [List.map_eq_nil_iff.mp hr]
    exact ⟨rfl, Saw.refl _⟩
  | skip hop hf h ih =>
    intro rest s hr hs hg
    obtain ⟨⟨shared, _⟩, rest, rfl, rfl, hr₁⟩ := List.map_eq_cons_iff.mp hr
    obtain ⟨s₁, he, hsaw, hs₁⟩ := run_data keys P hop (takes_skipped keys P (s := { s with shared }) hs hf) rest
    obtain ⟨ho, hsaw'⟩ := ih hr₁ hs₁ (hsaw.panicked.trans hg)
    rw [he]
    exact ⟨ho, hsaw.trans hsaw'⟩
  | empty hop hf h ih =>
    intro rest s hr hs hg
    obtain ⟨⟨shared, _⟩, rest, rfl, rfl, hr₁⟩ := List.map_eq_cons_iff.mp hr
    obtain ⟨s₁, he, hsaw, hs₁⟩ :=
      run_data keys P hop (takes_empty keys P hq (s := { s with shared }) hs hg hf) rest
    obtain ⟨ho, hsaw'⟩ := ih hr₁ hs₁ (hsaw.panicked.trans hg)
    rw [he]
    exact ⟨ho, hsaw.trans hsaw'⟩
  | message hop hop' hne hf h ih =>
    intro rest s hr hs hg
    obtain ⟨⟨shared, _⟩, rest, rfl, rfl, hr₁⟩ := List.map_eq_cons_iff.mp hr
    obtain ⟨⟨shared', _⟩, rest, rfl, rfl, hr₂⟩ := List.map_eq_cons_iff.mp hr₁
    obtain ⟨s₁, he, hsaw, len, hs₁⟩ :=
      run_data keys P hop (takes_header keys P (s := { s with shared }) hs hf hne) ((shared', _) :: rest)
    obtain ⟨s₂, he', hsaw₂, hs₂⟩ := run_data keys P hop'
      (takes_payload keys P hq (s := { s₁ with shared := shared' }) hs₁ (hsaw.panicked.trans hg) _) rest
    obtain ⟨ho, hsaw'⟩ := ih hr₂ hs₂ ((hsaw.trans hsaw₂).panicked.trans hg)
    rw [he, he']
    exact ⟨ho, (hsaw.trans hsaw₂).trans hsaw'⟩

end Reader

/-! ## The hand-over -/

/-- However many answers the handshake has read off a stream of messages, the
reader goes on with the message after the last one: over both, the handler is
shown the messages of the stream, in order and once each, and so its event
tables are dispatched. -/
theorem framing_hand_over {C : Crates} (keys : SessionKeys C) (P : Parsers) {σ : Type}
    (hq : LoxHandler.Quiet η) {ms : List Msg} {s s₁ : HsState η σ} (hst : Stream ms s.reads)
    (hg : s.handler.panicked = false) (k : Nat) (hk : Handshake.readPayloads k s = (.ok (), s₁))
    {rest : List (ReaderShared × ReadEvent)} (hr : rest.map Prod.snd = s₁.reads) {r r' : ReaderState η}
    (hh : r.handler = s₁.handler) (he : r.expect = .start) {outcome : ReadOutcome}
    (hrun : Reader.run keys P rest r = (outcome, r')) :
    outcome = .idleTimeout ∧
      rawPayloads r'.handler.calls = rawPayloads s.handler.calls ++ ms ∧
      r'.handler.dispatched.filter isEventTable =
        s.handler.dispatched.filter isEventTable ++ ms.filter isEventTable := by
  obtain ⟨ms₁, ms₂, rfl, hst₁, hsaw₁⟩ :=
    (Prog.wp_ok hk).mp (Handshake.readPayloads_saw hq k hst hg)
  have hg₁ : r.handler.panicked = false := by rw [hh]; exact hsaw₁.panicked.trans hg
  obtain ⟨ho, hsaw₂⟩ := Reader.run_saw keys P hq hst₁ hr ⟨0, he⟩ hg₁
  rw [hrun] at ho hsaw₂
  have hsaw := hsaw₁.trans (hh ▸ hsaw₂)
  exact ⟨ho, hsaw.raw, hsaw.events⟩

/-- A keepalive answer and a text after an estimated header; then a stray byte
and a binary file. -/
def sampleReads : List ReadEvent :=
  [.frame .binary (encodeHeader 0 1 0 9), .frame .binary (encodeHeader 6 0 0 0),
    .frame .binary (encodeHeader 0 0 0 2), .frame .text [79, 75], .frame .binary [3],
    .frame .binary (encodeHeader 1 0 0 1), .frame .binary [7]]

theorem sampleReads_stream : Stream [(6, []), (0, [79, 75]), (1, [7])] sampleReads := by
  have exact {m : Msg} (h : m.1 ≠ MessageType.outOfService.toU8) (hl : m.2.length < 2 ^ 32) :
      ExactHeader m (encodeHeader m.1 0 0 m.2.length) := ⟨h, hl, 0, 0, rfl, rfl⟩
  refine .skip (.inr rfl) (.inr ⟨_, rfl, rfl⟩) (.empty (.inr rfl) (exact ?_ ?_) ?_)
  · decide
  · decide
  refine .message (.inr rfl) (.inl rfl) ?_ (exact ?_ ?_) (.skip (.inr rfl) (.inl rfl) ?_)
  · decide
  · decide
  · decide
  refine .message (.inr rfl) (.inr rfl) ?_ (exact ?_ ?_) .nil
  all_goals decide

/-- A handshake about to read `reads`, for a client without a token. -/
def sampleHs (reads : List ReadEvent) : HsState Unit Unit :=
  ⟨SaltState.new, Pos.start, reads, [], .new (), ⟨LxToken.default, none⟩, [], [], []⟩

/-- A reader that takes over from the handshake, and what it shares, nobody
waiting. -/
def sampleShared : ReaderShared := ⟨PendingQueue.new, [], Liveness.new, true⟩

def sampleReader (s : HsState Unit Unit) : ReaderState Unit := ⟨.start, s.handler, sampleShared, [], []⟩

/-- The handshake reads one answer of the sample stream, the reader the rest. -/
theorem framing_hand_over_one_answer :
    let s := (Handshake.readPayloads 1 (sampleHs sampleReads)).2
    s.reads.length = 3 ∧ rawPayloads s.handler.calls = [(6, []), (0, [79, 75])] ∧
      rawPayloads (Reader.run sampleKeys Parsers.rejecting (s.reads.map (sampleShared, ·))
        (sampleReader s)).2.handler.calls = [(6, []), (0, [79, 75]), (1, [7])] := by
  intro s
  have hk : Handshake.readPayloads 1 (sampleHs sampleReads) = (.ok (), s) := Prod.ext (by rfl) rfl
  have hr : (s.reads.map (sampleShared, ·)).map Prod.snd = s.reads := by
    rw [List.map_map]; exact List.map_id _
  refine ⟨by rfl, by rfl, ?_⟩
  exact (framing_hand_over sampleKeys Parsers.rejecting LoxHandler.quiet_unit sampleReads_stream rfl 1 hk
    hr (r := sampleReader s) rfl rfl (Prod.eta _).symm).2.1

end Lox
