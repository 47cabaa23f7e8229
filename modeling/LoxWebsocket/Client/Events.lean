import LoxWebsocket.Client.Framing
import LoxWebsocket.Client.Losses
import LoxWebsocket.Client.Transport

/-!
# The events of a session

Event tables come at any time of a connection: in front of the answers that the
handshake waits for, and while the reader runs. From the frames of a whole session
the handler is called with the records of the tables the Miniserver has sent, in
its order, each once, and with nothing else that is state (`session_events`). A
handshake that fails has shown it a first part of them.

The frames are those of `Stream`; what the handshake leaves of them, however one
of its reads ends, are the frames of the messages it has not shown yet (`Unshown`).
That the records of a message are called back when it is dispatched, and only
then, is `Shown`.
-/

namespace Lox

/-- The callbacks that carry state. -/
def Call.isState : Call → Bool
  | .onValue _ | .onText _ | .onDaytimer _ | .onWeather _ | .onBinary _ => true
  | _ => false

def stateCalls (calls : List Call) : List Call := calls.filter Call.isState

/-- The callbacks for the event tables among messages. -/
def messageCalls (ms : List Msg) : List Call := ms.flatMap fun m => (eventCalls m.1 m.2).getD []

theorem stateCalls_append (l m : List Call) : stateCalls (l ++ m) = stateCalls l ++ stateCalls m :=
  List.filter_append _ _

theorem messageCalls_append (l m : List Msg) : messageCalls (l ++ m) = messageCalls l ++ messageCalls m :=
  List.flatMap_append

theorem stateCalls_eventCalls {msgType : UInt8} {payload : Bytes} {calls : List Call}
    (h : eventCalls msgType payload = some calls) : stateCalls calls = calls := by
  refine List.filter_eq_self.mpr fun c hc => ?_
  rw [eventCalls] at h
  split at h
  · cases h
    cases List.mem_singleton.mp hc
    rfl
  · cases h
    obtain ⟨record, -, rfl⟩ := List.mem_map.mp hc
    rfl
  · cases h
    obtain ⟨record, -, rfl⟩ := List.mem_map.mp hc
    rfl
  · cases h
    obtain ⟨event, -, rfl⟩ := List.mem_map.mp hc
    rfl
  · cases h
    obtain ⟨event, -, rfl⟩ := List.mem_map.mp hc
    rfl
  · cases h

/-- Only event tables have callbacks. -/
theorem messageCalls_filter (ms : List Msg) : messageCalls (ms.filter isEventTable) = messageCalls ms := by
  induction ms with
  | nil => rfl
  | cons m ms ih =>
    have hm := isSome_eventCalls m.1 m.2
    cases htable : isEventTable m with
    | true =>
      rw [List.filter_cons_of_pos htable]
      exact congrArg (_ ++ ·) ih
    | false =>
      have hnone : eventCalls m.1 m.2 = none := Option.not_isSome_iff_eq_none.mp (by simp [hm, htable])
      rw [List.filter_cons_of_neg (by simp [htable]), ih, messageCalls, messageCalls, List.flatMap_cons, hnone]
      rfl

/-! ## Dispatch -/

variable {η : Type}

/-- The records of the messages dispatched in between have been called back, and
no other. -/
def Shown (g g' : HandlerGuard η) : Prop :=
  ∃ l, g'.dispatched = g.dispatched ++ l ∧ stateCalls g'.calls = stateCalls g.calls ++ messageCalls l

instance : IsPreorder (HandlerGuard η) Shown where
  refl _ := ⟨[], (List.append_nil _).symm, (List.append_nil _).symm⟩
  trans _ _ _ := by
    rintro ⟨l, hd, hc⟩ ⟨l', hd', hc'⟩
    exact ⟨l ++ l', by rw [hd', hd, List.append_assoc], by rw [hc', hc, messageCalls_append, List.append_assoc]⟩

variable [LoxHandler η]

section

variable (hq : LoxHandler.Quiet η)

include hq

/-- A callback that carries no state. -/
theorem shown_call {c : Call} (hc : c.isState = false) (g : HandlerGuard η) :
    Shown g (g.guardOrFail (Handled.call c)).2 := by
  cases hg : g.panicked with
  | true =>
    simp only [HandlerGuard.guardOrFail, HandlerGuard.guard, hg, if_true]
    exact refl_of Shown g
  | false =>
    obtain ⟨g', he, -, hcalls, hd⟩ := guard_call hq hg c
    rw [he]
    refine ⟨[], by rw [hd, List.append_nil], ?_⟩
    have hnone : stateCalls [c] = [] := List.filter_cons_of_neg (by rw [hc]; exact Bool.false_ne_true)
    rw [hcalls, stateCalls_append, hnone]
    rfl

theorem shown_event (msgType : UInt8) (payload : Bytes) (g : HandlerGuard η) :
    Shown g (g.guardOrFail (rawThenEvent msgType payload)).2 := by
  cases hg : g.panicked with
  | true =>
    simp only [HandlerGuard.guardOrFail, HandlerGuard.guard, hg, if_true]
    exact refl_of Shown g
  | false =>
    obtain ⟨handler, hraw⟩ := g.toHandled.call_quiet hq (.onRawPayload msgType payload)
    simp only [HandlerGuard.guardOrFail, HandlerGuard.guard, hg, rawThenEvent, hraw, dispatchEvent, if_false,
      Bool.false_eq_true]
    refine ⟨[(msgType, payload)], ?_⟩
    have hone : messageCalls [(msgType, payload)] = (eventCalls msgType payload).getD [] := List.append_nil _
    rw [hone]
    cases he : eventCalls msgType payload with
    | none =>
      refine ⟨rfl, ?_⟩
      simp only [stateCalls_append]
      rfl
    | some calls =>
      obtain ⟨handler', hcalls⟩ := Handled.callAll_quiet hq calls
        ⟨handler, g.calls ++ [.onRawPayload msgType payload], g.dispatched ++ [(msgType, payload)]⟩
      have hraw : stateCalls [.onRawPayload msgType payload] = [] := rfl
      simp only [hcalls, stateCalls_append, stateCalls_eventCalls he, hraw, List.append_nil, Option.getD_some,
        and_self]

/-- A lifecycle event shows the handler no message. -/
theorem saw_lifecycle (event : ClientEvent) (g : HandlerGuard η) : Saw [] g (g.lifecycle event) := by
  obtain ⟨handler, hc⟩ := g.toHandled.call_quiet hq (.onEvent event)
  simp only [HandlerGuard.lifecycle, hc]
  refine ⟨rfl, ?_, (List.append_nil _).symm⟩
  simp only [rawPayloads_append]
  rfl

theorem shown_lifecycle (event : ClientEvent) (g : HandlerGuard η) : Shown g (g.lifecycle event) := by
  obtain ⟨handler, hc⟩ := g.toHandled.call_quiet hq (.onEvent event)
  simp only [HandlerGuard.lifecycle, hc]
  refine ⟨[], (List.append_nil _).symm, ?_⟩
  simp only [stateCalls_append]
  rfl

end

/-! ## The handshake -/

namespace Handshake

variable {C : Crates} {σ : Type}

theorem hearing_shown (hq : LoxHandler.Quiet η) : Hearing (Between Shown : HsState η σ → HsState η σ → Prop) where
  congr s s' heq := by
    rw [Between, heq]
    exact refl_of Shown _
  raw msgType payload s := shown_call hq (c := .onRawPayload msgType payload) rfl s.handler
  event msgType payload s := shown_event hq msgType payload s.handler

theorem all_shown [TokenStore σ] (hq : LoxHandler.Quiet η) (env : HandshakeEnv C) (sessionB64 : Str) :
    (all env sessionB64 : Hs η σ Unit).Keeps (Between Shown) := by
  have hhear : Hearing (Between Shown : HsState η σ → HsState η σ → Prop) := hearing_shown hq
  refine (hhear.keyExchange env sessionB64).bind fun _ => (hhear.authenticate env).bind fun _ => ?_
  split
  · exact hhear.enableUpdates env
  · exact Prog.keeps_pure _

/-- The handler has been given a first part of the messages, and the frames of the
others are to come. -/
def Unshown (ms : List Msg) (g : HandlerGuard η) (s : HsState η σ) : Prop :=
  ∃ ms₁ ms₂, ms = ms₁ ++ ms₂ ∧ Stream ms₂ s.reads ∧ Saw ms₁ g s.handler ∧ s.handler.panicked = false

omit [LoxHandler η] in
/-- The first of the messages, given to the handler. -/
theorem Unshown.cons {ms : List Msg} {m : Msg} {g g' : HandlerGuard η} {s : HsState η σ} (hm : Saw [m] g g')
    (h : Unshown ms g' s) : Unshown (m :: ms) g s := by
  obtain ⟨ms₁, ms₂, rfl, hst, hsaw, hp⟩ := h
  exact ⟨m :: ms₁, ms₂, rfl, hst, hm.trans hsaw, hp⟩

omit [LoxHandler η] in
theorem unshown_start {ms : List Msg} {s : HsState η σ} (hst : Stream ms s.reads) (hp : s.handler.panicked = false) :
    Unshown ms s.handler s := ⟨[], ms, rfl, hst, Saw.refl _, hp⟩

/-- On a stream the loop shows the handler a first part of the messages, whether
it ends with an answer or without one. -/
theorem readPayloadLoop_unshown (hq : LoxHandler.Quiet η) (n : Nat) :
    ∀ {ms : List Msg} {s : HsState η σ}, Stream ms s.reads → s.handler.panicked = false →
      (readPayloadLoop n).wp (fun _ => Unshown ms s.handler) (fun _ => Unshown ms s.handler) s := by
  induction n with
  | zero => exact fun hst hg => unshown_start hst hg
  | succ n ih =>
    intro ms s hst hg
    -- one message, from the state `s₁` in which its header and payload have been read
    have deliver : ∀ {ms : List Msg} {m : Msg} {s₁ : HsState η σ}, s₁.handler = s.handler → Stream ms s₁.reads →
        Prog.wp (if m.1 = MessageType.text.toU8 then do
            guarded fun h => h.call (.onRawPayload m.1 m.2)
            pure m.2
          else do
            let _ ← guarded fun h => rawThenEvent m.1 m.2 h
            readPayloadLoop n : Hs η σ Bytes)
          (fun _ => Unshown (m :: ms) s.handler) (fun _ => Unshown (m :: ms) s.handler) s₁ := by
      intro ms m s₁ hh hst
      have hg₁ : s₁.handler.panicked = false := by rw [hh]; exact hg
      split
      · rename_i ht
        obtain ⟨g', he, hsaw⟩ := guard_raw hq hg₁ (m := m) (by rw [isEventTable, ht]; rfl)
        have hp : g'.panicked = false := hsaw.panicked.trans hg₁
        rw [Prog.wp_bind, Prog.wp_ok (guarded_ok he), Prog.wp_pure]
        exact .cons (hh ▸ hsaw) (unshown_start (s := { s₁ with handler := g' }) hst hp)
      · obtain ⟨g', he, hsaw⟩ := guard_rawThenEvent hq hg₁ m
        have hp : g'.panicked = false := hsaw.panicked.trans hg₁
        rw [Prog.wp_bind, Prog.wp_ok (guarded_ok he)]
        exact Prog.wp_mono (ih (s := { s₁ with handler := g' }) hst hp) (fun _ _ h => .cons (hh ▸ hsaw) h)
          fun _ _ h => .cons (hh ▸ hsaw) h
    unfold readPayloadLoop
    rw [Prog.wp_bind]
    generalize hes : s.reads = es at hst
    cases hst with
    | nil =>
      rw [Prog.wp_error (readHeader_nil hes)]
      exact unshown_start (hes ▸ .nil) hg
    | skip hop hf h =>
      rcases hf with hf | ⟨hdr, hf, hest⟩
      · obtain ⟨e, he⟩ := readHeader_junk hes hop hf
        rw [Prog.wp_error he]
        exact unshown_start (s := { s with reads := _ }) h hg
      · rw [Prog.wp_ok (readHeader_frame hes hop hf), if_pos hest]
        exact ih (s := { s with reads := _ }) h hg
    | empty hop hf h =>
      obtain ⟨hdr, hp, hest, hid, hlen⟩ := hf.parse
      have hlen : hdr.len = 0 := hlen.mpr rfl
      rw [Prog.wp_ok (readHeader_frame hes hop hp), if_neg (by simp [hest]), hid,
        if_neg hf.identifier, Prog.wp_bind, readBody, if_pos hlen, Prog.wp_pure]
      exact deliver (m := (_, [])) rfl h
    | message hop hop' hne hf h =>
      obtain ⟨hdr, hp, hest, hid, hlen⟩ := hf.parse
      have hlen : ¬ hdr.len = 0 := fun h => hne (hlen.mp h)
      rw [Prog.wp_ok (readHeader_frame hes hop hp), if_neg (by simp [hest]), hid,
        if_neg hf.identifier, Prog.wp_bind, readBody, if_neg hlen, Prog.wp_ok (readFrameBytes_frame rfl hop')]
      exact deliver (m := (_, _)) rfl h

/-- What is unread stays so, in every part of the handshake. -/
theorem readPayload_unshown (hq : LoxHandler.Quiet η) (ms : List Msg) (g : HandlerGuard η) :
    (readPayload : Hs η σ Bytes).Keeps (Prog.Stays (Unshown ms g)) := by
  rintro s ⟨ms₁, ms₂, rfl, hst, hsaw, hp⟩
  have hread := Prog.of_wp (readPayloadLoop_unshown hq maxInterleavedFrames hst hp)
  obtain ⟨ms₃, ms₄, rfl, hst', hsaw', hp'⟩ := hread
  exact ⟨ms₁ ++ ms₃, ms₄, (List.append_assoc _ _ _).symm, hst', hsaw.trans hsaw', hp'⟩

omit [LoxHandler η] in
theorem Unshown.congr {ms : List Msg} {g : HandlerGuard η} {s s' : HsState η σ} (h : Unshown ms g s)
    (hr : s'.reads = s.reads) (hh : s'.handler = s.handler) : Unshown ms g s' := by
  unfold Unshown at h ⊢
  rw [hr, hh]
  exact h

omit [LoxHandler η] in
theorem sendText_unshown (ms : List Msg) (g : HandlerGuard η) (text : Str) :
    (sendText text : Hs η σ Unit).Keeps (Prog.Stays (Unshown ms g)) :=
  (sendText_onlyWrites text).mono fun s s' hs h => h.congr (by rw [hs]) (by rw [hs])

theorem asking_unshown (hq : LoxHandler.Quiet η) (env : HandshakeEnv C) (ms : List Msg) (g : HandlerGuard η) :
    Asking env (Prog.Stays (Unshown (σ := σ) ms g)) where
  request cmd := by
    refine Prog.Keeps.bind (fun s h => h.congr rfl rfl) fun encrypted => ?_
    refine (sendText_unshown ms g encrypted).bind fun _ => ?_
    refine Prog.Keeps.bind (fun s h => h.congr rfl rfl) fun _ => (readPayload_unshown hq ms g).bind fun resp => ?_
    exact Prog.Keeps.bind (fun s h => h.congr rfl rfl) fun _ => Prog.keeps_pure _
  clock token s h := h.congr rfl rfl
  shared s shared h := h.congr rfl rfl

theorem all_unshown [TokenStore σ] (hq : LoxHandler.Quiet η) (env : HandshakeEnv C) (sessionB64 : Str) (ms : List Msg)
    (g : HandlerGuard η) : (all env sessionB64 : Hs η σ Unit).Keeps (Prog.Stays (Unshown ms g)) := by
  have hkey : (keyExchange env sessionB64 : Hs η σ Unit).Keeps (Prog.Stays (Unshown ms g)) := by
    refine Prog.Keeps.mapErr ?_ _
    refine (sendText_unshown ms g _).bind fun _ => (readPayload_unshown hq ms g).bind fun resp => ?_
    exact (Prog.keeps_lift _).bind fun root => (Prog.keeps_lift _).bind fun _ => Prog.keeps_pure _
  exact hkey.bind fun _ => (asking_unshown hq env ms g).afterKeyExchange

end Handshake

/-! ## The reader -/

/-- What the reader tells the handler keeps `R`. -/
structure HandlerGuard.Hears (R : HandlerGuard η → HandlerGuard η → Prop) : Prop where
  event : ∀ msgType payload (g : HandlerGuard η), R g (g.guardOrFail (rawThenEvent msgType payload)).2
  json : ∀ payload (g : HandlerGuard η), R g (g.guardOrFail (Handled.call (.onJson payload))).2
  keepalive : ∀ g : HandlerGuard η, R g (g.guardOrFail (Handled.call .onKeepalive)).2

theorem hears_shown (hq : LoxHandler.Quiet η) : HandlerGuard.Hears (Shown (η := η)) :=
  ⟨shown_event hq, fun _ => shown_call hq rfl, shown_call hq rfl⟩

namespace Reader

variable {C : Crates} (keys : SessionKeys C) (P : Parsers) {R : HandlerGuard η → HandlerGuard η → Prop}
  [IsPreorder (HandlerGuard η) R] (h : HandlerGuard.Hears R)

include h

theorem onTextMessage_hears (payload : Bytes) : (onTextMessage keys P payload : Rd η Unit).Keeps (Between R) := by
  intro s
  rcases hr : resolveText keys s.shared.pending payload with ⟨_ | resolved, pending⟩
  · rw [onTextMessage_unsolicited P hr]
    exact h.json payload s.handler
  · rw [onTextMessage_resolved P hr]
    dsimp only
    split
    · exact between_of_eq (handler_releaseVisu P _ _)
    · exact between_of_eq rfl

theorem dispatch_hears (msgType : UInt8) (payload : Bytes) :
    (dispatch keys P msgType payload : Rd η Unit).Keeps (Between R) := by
  refine Prog.Keeps.bind (fun s => h.event msgType payload s.handler) fun dispatched => ?_
  split
  · exact Prog.keeps_pure _
  split
  · exact onTextMessage_hears keys P h payload
  · exact Prog.Keeps.bind (fun _ => between_of_eq rfl) fun _ => fun s => h.keepalive s.handler
  · exact Prog.keeps_pure _

theorem onDataFrame_hears (frame : Bytes) :
    (onDataFrame keys P frame : Rd η (Option ReadOutcome)).Keeps (Between R) := by
  have hexpect (expect : FrameExpect) : (setExpect expect : Rd η Unit).Keeps (Between R) := fun _ => between_of_eq rfl
  refine Prog.Keeps.bind (fun _ => between_of_eq rfl) fun s => ?_
  split
  · unfold onHeader
    split
    · split_ifs
      · exact (hexpect _).bind fun _ => Prog.keeps_pure _
      · exact Prog.keeps_pure _
      · exact (dispatch_hears keys P h _ _).bind fun _ => (hexpect _).bind fun _ => Prog.keeps_pure _
      · exact (hexpect _).bind fun _ => Prog.keeps_pure _
    · exact Prog.keeps_pure _
    · exact Prog.keeps_pure _
  · exact (dispatch_hears keys P h _ _).bind fun _ => (hexpect _).bind fun _ => Prog.keeps_pure _

/-- Of the frames only those with data tell the handler anything. -/
theorem run_hears (events : List (ReaderShared × ReadEvent)) (s : ReaderState η) :
    Between R s (run keys P events s).2 := by
  induction events generalizing s with
  | nil => exact between_of_eq rfl
  | cons x events ih =>
    obtain ⟨shared, event⟩ := x
    cases event with
    | elapsed => exact between_of_eq rfl
    | failed m => exact between_of_eq rfl
    | frame op payload =>
      have hframe := onDataFrame_hears keys P h payload { s with shared }
      have hskipped : Between R s (run keys P events { s with shared }).2 := ih { s with shared }
      rcases hd : onDataFrame keys P payload { s with shared } with ⟨_ | _ | _, s₁⟩
      all_goals
        rw [hd] at hframe
        cases op
        all_goals simp only [run, hd]
        all_goals first
          | exact trans_of (Between R) hframe (ih _)
          | exact hskipped
          | exact hframe
          | exact between_of_eq rfl

end Reader

/-! ## The session -/

theorem map_snd_readerEvents (seen : Nat → ReaderShared) (reads : List ReadEvent) :
    (Supervisor.readerEvents seen reads).map Prod.snd = reads := by
  rw [Supervisor.readerEvents, List.map_map]
  exact List.zipIdx_map_fst 0 reads

omit [LoxHandler η] in
/-- What a handler was given of messages, and the records it was called with. -/
theorem stateCalls_of_saw {l : List Msg} {g g' : HandlerGuard η} (hsaw : Saw l g g') (hshown : Shown g g') :
    stateCalls g'.calls = stateCalls g.calls ++ messageCalls l := by
  obtain ⟨l', hd, hc⟩ := hshown
  have hevents := hsaw.events
  rw [hd, List.filter_append] at hevents
  have htables : l'.filter isEventTable = l.filter isEventTable := List.append_cancel_left hevents
  rw [hc, ← messageCalls_filter l', htables, messageCalls_filter]

/-- A session on the frames of the messages `ms` gives the handler a first part of
them, and all if it is established. -/
theorem sessionOnce_saw (hq : LoxHandler.Quiet η) {C : Crates} {σ : Type} [TokenStore σ] (cfg : ConnectConfig)
    (world : World) (P : Parsers) (w : SessionWorld C σ) (hsetup : w.setup = .ok ()) {ms : List Msg}
    (hst : Stream ms w.reads) (sup : Supervisor η σ) (hp : sup.handler.panicked = false) :
    ∃ l, l <+: ms ∧ Saw l sup.handler (Supervisor.sessionOnce cfg world P w sup).2.handler ∧
      Shown sup.handler (Supervisor.sessionOnce cfg world P w sup).2.handler ∧
      ((Supervisor.sessionOnce cfg world P w sup).1.connectedFor ≠ none → l = ms ∧
        (w.stopped = false → (Supervisor.sessionOnce cfg world P w sup).1.outcome =
          .failed (.timeout "no frame within the reader idle window".toList))) := by
  have hshown := Handshake.all_shown hq ⟨world, P, w.keys, cfg⟩ w.sessionB64 (sup.handshakeState w)
  have hunshown := Handshake.all_unshown hq ⟨world, P, w.keys, cfg⟩ w.sessionB64 ms sup.handler (sup.handshakeState w)
    (Handshake.unshown_start hst hp)
  rw [Supervisor.sessionOnce, hsetup]
  rcases hall : Handshake.all ⟨world, P, w.keys, cfg⟩ w.sessionB64 (sup.handshakeState w) with ⟨_ | _, hs⟩
  · rw [hall] at hshown hunshown
    obtain ⟨ms₁, ms₂, rfl, -, hsaw, -⟩ := hunshown
    exact ⟨ms₁, List.prefix_append _ _, hsaw, hshown, fun hn => absurd rfl hn⟩
  · rw [hall] at hshown hunshown
    obtain ⟨ms₁, ms₂, rfl, hst₂, hsaw, hp₁⟩ := hunshown
    -- from the handshake over the announcement to the reader
    let r₀ : ReaderState η := ⟨.start, (sup.connected w hs).handler, w.seen 0, [], []⟩
    have hannounced : Saw [] hs.handler r₀.handler := saw_lifecycle hq _ _
    obtain ⟨houtcome, hread⟩ := Reader.run_saw w.keys P hq hst₂ (map_snd_readerEvents w.seen hs.reads) (s := r₀)
      ⟨0, rfl⟩ (hannounced.panicked.trans hp₁)
    have hhears : Shown r₀.handler (Reader.run w.keys P (Supervisor.readerEvents w.seen hs.reads) r₀).2.handler :=
      Reader.run_hears w.keys P (hears_shown hq) _ r₀
    refine ⟨ms₁ ++ ms₂, List.prefix_refl _, hsaw.trans (hannounced.trans hread),
      trans_of Shown hshown (trans_of Shown (shown_lifecycle hq _ _) hhears), fun _ => ⟨rfl, fun hstopped => ?_⟩⟩
    simp only [hstopped]
    rw [houtcome]
    rfl

/-- A session on the frames of the messages `ms`, with a handler that does not
unwind: if the handshake fails, the handler has been called with the records of a
first part of them; otherwise with those of all, in order and once each, and the
session ends when nothing more comes. It is called with no other state. -/
theorem session_events (hq : LoxHandler.Quiet η) {C : Crates} {σ : Type} [TokenStore σ] (cfg : ConnectConfig)
    (world : World) (P : Parsers) (w : SessionWorld C σ) (hsetup : w.setup = .ok ()) {ms : List Msg}
    (hst : Stream ms w.reads) (sup : Supervisor η σ) (hp : sup.handler.panicked = false) :
    let r := Supervisor.sessionOnce cfg world P w sup
    ∃ l, l <+: ms ∧ stateCalls r.2.handler.calls = stateCalls sup.handler.calls ++ messageCalls l ∧
      (r.1.connectedFor ≠ none → l = ms ∧
        (w.stopped = false → r.1.outcome = .failed (.timeout "no frame within the reader idle window".toList))) := by
  intro r
  obtain ⟨l, hl, hsaw, hshown, hestablished⟩ := sessionOnce_saw hq cfg world P w hsetup hst sup hp
  exact ⟨l, hl, stateCalls_of_saw hsaw hshown, hestablished⟩

/-! ## A table after the handshake -/

theorem stream_answer {answer : Bytes} (ha : Announceable answer) {ms : List Msg} {es : List ReadEvent}
    (h : Stream ms es) : Stream ((MessageType.text.toU8, answer) :: ms) (answerFrames answer ++ es) :=
  .message (.inr rfl) (.inl rfl) ha.1 ⟨show MessageType.text.toU8 ≠ _ by decide, ha.2, 0, 0, rfl, rfl⟩ h

/-- A table with one value. -/
def valueTable : Msg := (2, List.replicate 24 0)

/-- The Miniserver answers the handshake, sends the table and falls silent. -/
def tableSession : SessionWorld sampleCrates (Option LxToken) :=
  Supervisor.displacingSession Pos.start (answerFrames TokenRace.keyAnswer ++ (answerFrames TokenRace.keyAnswer ++
    (answerFrames TokenRace.refreshAnswer ++
      [.frame .binary (encodeHeader 2 0 0 24), .frame .binary (List.replicate 24 0)])))

theorem tableSession_stream :
    Stream [(0, TokenRace.keyAnswer), (0, TokenRace.keyAnswer), (0, TokenRace.refreshAnswer), valueTable]
      tableSession.reads := by
  refine stream_answer Supervisor.announceable_keyAnswer (stream_answer Supervisor.announceable_keyAnswer
    (stream_answer Supervisor.announceable_refreshAnswer ?_))
  exact .message (.inr rfl) (.inr rfl) (by decide) ⟨by decide, by decide, 0, 0, rfl, rfl⟩ .nil

theorem session_events_table :
    stateCalls (Supervisor.sessionOnce (Supervisor.reuseConfig 0) sampleWorld TokenRace.sampleParsers tableSession
        (Supervisor.start () Supervisor.reusing)).2.handler.calls =
      [.onValue ⟨Vector.replicate 16 0, 0⟩] := by
  obtain ⟨hs, hall, -⟩ := Handshake.all_reuses ⟨sampleWorld, TokenRace.sampleParsers, sampleKeys,
      Supervisor.reuseConfig 0⟩ LoxHandler.quiet_unit sampleCrates_lawful.toTotal rfl
    (s := (Supervisor.start () Supervisor.reusing).handshakeState tableSession) rfl Supervisor.not_displaces_reusing
    Supervisor.takesBack_sample rfl rfl rfl tableSession.sessionB64
  obtain ⟨l, -, hcalls, hestablished⟩ := session_events LoxHandler.quiet_unit (Supervisor.reuseConfig 0) sampleWorld
    TokenRace.sampleParsers tableSession rfl tableSession_stream (Supervisor.start () Supervisor.reusing) rfl
  have hsetup : tableSession.setup = .ok () := rfl
  have hkeys : tableSession.keys = sampleKeys := rfl
  obtain ⟨rfl, -⟩ := hestablished (by
    simp only [Supervisor.sessionOnce, hsetup, hkeys, hall]
    exact Option.some_ne_none _)
  exact hcalls.trans (by decide)

end Lox
