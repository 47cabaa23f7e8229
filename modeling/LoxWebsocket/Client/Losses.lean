import LoxWebsocket.Client.Lifecycle
import LoxWebsocket.Client.Reuse

/-!
# The loss of a session

The Miniserver takes its leave with a close frame or with the message that it
goes out of service, and these are the ends of a session that the handler is
told of (`disconnected_iff`). The others, a failed stream and the idle timeout,
are not announced.

So between two sessions the handler is told once that the connection closed, all
along a run, if and only if of any two sessions that are established the
Miniserver took its leave of the first (`losses_announced_iff`). After an idle
timeout the handler is told of the next session and not of the loss
(`idle_timeout_unannounced`).
-/

namespace Lox

/-- The handler is told of a session. -/
def ClientEvent.isConnected : ClientEvent → Bool
  | .connected | .reconnected => true
  | _ => false

def ClientEvent.isConnectionClosed : ClientEvent → Bool
  | .connectionClosed _ => true
  | _ => false

/-- One event before the next session that the connection closed. -/
def LossAnnounced (events : List ClientEvent) : Prop :=
  ∀ between e after, events = between ++ e :: after → e.isConnected = true →
    (∀ x ∈ between, x.isConnected = false) → between.countP ClientEvent.isConnectionClosed = 1

/-- Between any two consecutive sessions there is one. -/
def LossesAnnounced (events : List ClientEvent) : Prop :=
  ∀ before e after, events = before ++ e :: after → e.isConnected = true → LossAnnounced after

theorem lossesAnnounced_nil : LossesAnnounced [] := by
  intro before e after h
  simp at h

theorem lossesAnnounced_cons {e : ClientEvent} {events : List ClientEvent} : LossesAnnounced (e :: events) ↔
    (e.isConnected = true → LossAnnounced events) ∧ LossesAnnounced events := by
  constructor
  · intro h
    refine ⟨h [] e events rfl, fun before e' after he => h (e :: before) e' after ?_⟩
    rw [he]
    rfl
  · rintro ⟨hfirst, hrest⟩ before e' after he
    cases before with
    | nil => cases he; exact hfirst
    | cons x before => cases he; exact hrest before e' after rfl

theorem lossesAnnounced_append {told events : List ClientEvent} (h : ∀ x ∈ told, x.isConnected = false) :
    LossesAnnounced (told ++ events) ↔ LossesAnnounced events := by
  induction told with
  | nil => exact Iff.rfl
  | cons e told ih =>
    rw [List.forall_mem_cons] at h
    rw [List.cons_append, lossesAnnounced_cons, ih h.2, h.1]
    simp

/-- With no further session there is nothing to announce. -/
theorem lossAnnounced_of_none {events : List ClientEvent} (h : ∀ x ∈ events, x.isConnected = false) :
    LossAnnounced events := by
  rintro between e after rfl he
  rw [h e (by simp)] at he
  cases he

/-- The next session is the first event after `told`. -/
theorem lossAnnounced_append {told events : List ClientEvent} {e : ClientEvent}
    (htold : ∀ x ∈ told, x.isConnected = false) (he : e.isConnected = true) :
    LossAnnounced (told ++ e :: events) ↔ told.countP ClientEvent.isConnectionClosed = 1 := by
  refine ⟨fun h => h told e events rfl he htold, fun h between e' after hsplit he' hbetween => ?_⟩
  have hfind (pre : List ClientEvent) (x : ClientEvent) (post : List ClientEvent) (hx : x.isConnected = true)
      (hpre : ∀ y ∈ pre, y.isConnected = false) : (pre ++ x :: post).takeWhile (!·.isConnected) = pre := by
    rw [List.takeWhile_append_of_pos (by simpa using hpre), List.takeWhile_cons_of_neg (by simp [hx]), List.append_nil]
  have heq : between = told := by
    rw [← hfind between e' after he' hbetween, ← hsplit, hfind told e events he htold]
  rw [heq]
  exact h

/-! ## The events of sessions -/

theorem closedEvents_not_isConnected (outcome : SessionOutcome) :
    ∀ x ∈ outcome.closedEvents, x.isConnected = false := by
  cases outcome <;> simp [SessionOutcome.closedEvents, ClientEvent.isConnected]

theorem countP_closedEvents (outcome : SessionOutcome) :
    outcome.closedEvents.countP ClientEvent.isConnectionClosed = 1 ↔
      ∃ closeCode, outcome = .disconnected closeCode := by
  cases outcome <;> simp [SessionOutcome.closedEvents, ClientEvent.isConnectionClosed]

/-- A session that is not established has failed. -/
def FailsUnestablished (x : SessionResult) : Prop := x.established = false → ∃ e, x.outcome = .failed e

theorem events_unestablished {x : SessionResult} (hx : FailsUnestablished x) (h : x.established = false)
    (everConnected : Bool) : x.events everConnected = [] := by
  obtain ⟨e, he⟩ := hx h
  rw [SessionResult.events, SessionResult.connectedEvents, h, he]
  rfl

theorem events_established {x : SessionResult} (h : x.established = true) (everConnected : Bool) :
    ∃ e : ClientEvent, e.isConnected = true ∧ x.events everConnected = e :: x.outcome.closedEvents := by
  refine ⟨if everConnected then .reconnected else .connected, ?_, ?_⟩
  · cases everConnected <;> rfl
  · rw [SessionResult.events, SessionResult.connectedEvents, h]
    rfl

/-- The first event of sessions is that one of them is established. -/
theorem eventsOf_cases {xs : List SessionResult} (hxs : ∀ x ∈ xs, FailsUnestablished x) (everConnected : Bool) :
    (∀ x ∈ xs, x.established = false) ∧ eventsOf everConnected xs = [] ∨
      (∃ x ∈ xs, x.established = true) ∧
        ∃ e rest, e.isConnected = true ∧ eventsOf everConnected xs = e :: rest := by
  induction xs generalizing everConnected with
  | nil => exact .inl ⟨List.forall_mem_nil _, rfl⟩
  | cons x xs ih =>
    rw [List.forall_mem_cons] at hxs
    rw [eventsOf]
    cases hx : x.established with
    | true =>
      obtain ⟨e, he, heq⟩ := events_established hx everConnected
      exact .inr ⟨⟨x, List.mem_cons_self, hx⟩, e, _, he, by rw [heq]; rfl⟩
    | false =>
      rw [events_unestablished hxs.1 hx, List.nil_append]
      refine (ih hxs.2 _).imp (fun h => ⟨List.forall_mem_cons.mpr ⟨hx, h.1⟩, h.2⟩) fun h => ⟨?_, h.2⟩
      obtain ⟨y, hy, hest⟩ := h.1
      exact ⟨y, List.mem_cons_of_mem _ hy, hest⟩

/-- The losses of sessions are announced if and only if of any two that are
established the first ended with a close code. -/
theorem lossesAnnounced_eventsOf {xs : List SessionResult} (hxs : ∀ x ∈ xs, FailsUnestablished x)
    {last : List ClientEvent} (hlast : ∀ e ∈ last, e.isConnected = false) (everConnected : Bool) :
    LossesAnnounced (eventsOf everConnected xs ++ last) ↔ xs.Pairwise fun x y =>
      x.established = true → y.established = true → ∃ closeCode, x.outcome = .disconnected closeCode := by
  induction xs generalizing everConnected with
  | nil =>
    refine iff_of_true ?_ List.Pairwise.nil
    rw [eventsOf, List.nil_append, ← List.append_nil last]
    exact (lossesAnnounced_append hlast).mpr lossesAnnounced_nil
  | cons x xs ih =>
    rw [List.forall_mem_cons] at hxs
    rw [eventsOf, List.append_assoc, List.pairwise_cons, ← ih hxs.2 (everConnected || x.established)]
    cases hx : x.established with
    | false =>
      rw [events_unestablished hxs.1 hx, List.nil_append]
      simp
    | true =>
      obtain ⟨e, he, heq⟩ := events_established hx everConnected
      rw [heq, List.cons_append, lossesAnnounced_cons,
        lossesAnnounced_append (closedEvents_not_isConnected x.outcome)]
      refine and_congr_left fun _ => ?_
      simp only [he, true_implies]
      rcases eventsOf_cases hxs.2 (everConnected || true) with ⟨hnone, hnil⟩ | ⟨⟨y, hy, hest⟩, e', rest, he', hcons⟩
      · rw [hnil, List.nil_append]
        refine iff_of_true (lossAnnounced_of_none ?_) fun y hy hest => ?_
        · intro z hz
          exact (List.mem_append.mp hz).elim (closedEvents_not_isConnected x.outcome z) (hlast z)
        · rw [hnone y hy] at hest
          cases hest
      · rw [hcons, List.cons_append, lossAnnounced_append (closedEvents_not_isConnected x.outcome) he',
          countP_closedEvents]
        exact ⟨fun h _ _ _ => h, fun h => h y hy hest⟩

/-! ## How a session ends -/

/-- A frame that says that the Miniserver goes out of service. -/
def FrameExpect.outOfService (expect : FrameExpect) (frame : Bytes) : Bool :=
  match expect with
  | .header _ =>
    match parseHeader frame with
    | .ok (some hdr) => !hdr.isEstimated && hdr.identifier == MessageType.outOfService.toU8
    | _ => false
  | .payload _ _ => false

/-- The Miniserver takes its leave. -/
def ReadEvent.isFarewell (expect : FrameExpect) : ReadEvent → Bool
  | .frame .close _ => true
  | .frame .text payload | .frame .binary payload => expect.outOfService payload
  | _ => false

namespace Reader

variable {C : Crates} {η : Type} [LoxHandler η] (keys : SessionKeys C) (P : Parsers)

/-- The reader gets as far as a farewell. -/
def TakesLeave (events : List (ReaderShared × ReadEvent)) (s : ReaderState η) : Prop :=
  ∃ before x after s', events = before ++ x :: after ∧ advance keys P before s = some s' ∧
    x.2.isFarewell s'.expect = true

theorem dispatched_none (msgType : UInt8) (payload : Bytes) (expect : FrameExpect) (s : ReaderState η) :
    (do dispatch keys P msgType payload; setExpect expect; pure none : Rd η (Option ReadOutcome)).wp
      (fun o _ => o = none) (fun _ _ => True) s := by
  rw [Prog.wp_bind]
  exact Prog.wp_mono (Prog.Keeps.wp (R := fun _ _ => True) (fun _ => trivial) s) (fun _ _ _ => rfl) fun _ _ h => h

/-- The reader ends by itself when it is told so, and only then. -/
theorem onDataFrame_outOfService (frame : Bytes) (s : ReaderState η) :
    (onDataFrame keys P frame).wp
      (fun o _ => o = if s.expect.outOfService frame then some (.closed (some 1012)) else none)
      (fun _ _ => s.expect.outOfService frame = false) s := by
  unfold onDataFrame FrameExpect.outOfService
  rw [Prog.wp_bind, Prog.wp_get]
  cases s.expect with
  | payload msgType len =>
    exact Prog.wp_mono (dispatched_none keys P msgType frame .start s) (fun _ _ h => h) fun _ _ _ => rfl
  | header n =>
    simp only [onHeader]
    cases hf : parseHeader frame with
    | error e => rfl
    | ok parsed =>
      cases parsed with
      | none => rfl
      | some hdr =>
        simp only
        by_cases hest : hdr.isEstimated = true
        · rw [if_pos hest]
          simp [hest, Prog.wp_bind, setExpect]
        rw [if_neg hest]
        by_cases hid : hdr.identifier = MessageType.outOfService.toU8
        · simp [hest, hid]
        rw [if_neg hid]
        simp only [beq_false_of_ne hid, Bool.and_false, Bool.false_eq_true, if_false]
        split_ifs
        · exact dispatched_none keys P hdr.identifier [] .start s
        · rfl

theorem advance_cons (x : ReaderShared × ReadEvent) (events : List (ReaderShared × ReadEvent)) (s : ReaderState η) :
    advance keys P (x :: events) s = (advance keys P [x] s).bind (advance keys P events) := by
  obtain ⟨shared, event⟩ := x
  cases event with
  | elapsed => rfl
  | failed m => rfl
  | frame op payload =>
    rcases hd : onDataFrame keys P payload { s with shared } with ⟨_ | _ | _, s₁⟩
    all_goals cases op
    all_goals simp only [advance, hd, Option.bind_some, Option.bind_none]

theorem takesLeave_cons {x : ReaderShared × ReadEvent} {events : List (ReaderShared × ReadEvent)}
    {s : ReaderState η} : TakesLeave keys P (x :: events) s ↔
      x.2.isFarewell s.expect = true ∨ ∃ s', advance keys P [x] s = some s' ∧ TakesLeave keys P events s' := by
  constructor
  · rintro ⟨before, y, after, s', heq, hadv, hy⟩
    cases before with
    | nil => cases heq; cases hadv; exact .inl hy
    | cons z before =>
      cases heq
      rw [advance_cons, Option.bind_eq_some_iff] at hadv
      obtain ⟨s₁, h₁, h₂⟩ := hadv
      exact .inr ⟨s₁, h₁, before, y, after, s', rfl, h₂, hy⟩
  · rintro (hx | ⟨s₁, h₁, before, y, after, s', rfl, h₂, hy⟩)
    · exact ⟨[], x, events, s, rfl, rfl, hx⟩
    · refine ⟨x :: before, y, after, s', rfl, ?_, hy⟩
      rw [advance_cons, h₁]
      exact h₂

/-- The reader ends with a close code if and only if it gets as far as a
farewell. -/
theorem run_closed_iff (events : List (ReaderShared × ReadEvent)) (s : ReaderState η) :
    (∃ closeCode, (run keys P events s).1 = .closed closeCode) ↔ TakesLeave keys P events s := by
  induction events generalizing s with
  | nil =>
    refine iff_of_false (fun ⟨_, h⟩ => by cases h) ?_
    rintro ⟨before, x, after, s', heq, -⟩
    simp at heq
  | cons x events ih =>
    obtain ⟨shared, event⟩ := x
    rw [takesLeave_cons]
    cases event with
    | elapsed => simp [run, advance, ReadEvent.isFarewell]
    | failed m => simp [run, advance, ReadEvent.isFarewell]
    | frame op payload =>
      -- a data frame is an error, is dealt with, or ends the reader
      have hout := onDataFrame_outOfService keys P payload { s with shared }
      rcases hd : onDataFrame keys P payload { s with shared } with ⟨e | _ | o, s₁⟩
      · rw [Prog.wp_error hd] at hout
        cases op
        all_goals simp_all [run, advance, ReadEvent.isFarewell]
      · rw [Prog.wp_ok hd] at hout
        cases op
        all_goals simp_all [run, advance, ReadEvent.isFarewell]
      · rw [Prog.wp_ok hd] at hout
        cases op
        all_goals simp_all [run, advance, ReadEvent.isFarewell]

end Reader

namespace Supervisor

variable {C : Crates} {η σ : Type} [LoxHandler η] [TokenStore σ] (cfg : ConnectConfig) (world : World)
  (P : Parsers)

/-- After the handshake of the session, the Miniserver takes its leave. -/
def Attempt.Farewell (a : Attempt C η σ) : Prop :=
  ∃ hs, Handshake.all ⟨world, P, a.session.keys, cfg⟩ a.session.sessionB64
      (a.start.handshakeState a.session) = (.ok (), hs) ∧
    Reader.TakesLeave a.session.keys P (readerEvents a.session.seen hs.reads)
      ⟨.start, (a.start.connected a.session hs).handler, a.session.seen 0, [], []⟩

/-- A session ends with a close code if and only if the Miniserver takes its
leave. -/
theorem disconnected_iff {a : Attempt C η σ} (hest : a.Established cfg world P)
    (hstop : (a.result cfg world P).outcome ≠ .stopped) :
    (∃ closeCode, (a.result cfg world P).outcome = .disconnected closeCode) ↔ a.Farewell cfg world P := by
  obtain ⟨hsetup, hok⟩ := hest
  rcases hall : Handshake.all ⟨world, P, a.session.keys, cfg⟩ a.session.sessionB64
    (a.start.handshakeState a.session) with ⟨e | _, hs⟩
  · rw [hall] at hok
    cases hok
  have hout : (a.result cfg world P).outcome = sessionOutcome a.session.stopped
      (Reader.run a.session.keys P (readerEvents a.session.seen hs.reads)
        ⟨.start, (a.start.connected a.session hs).handler, a.session.seen 0, [], []⟩).1 := by
    simp only [Attempt.result, sessionOnce, hsetup, hall]
  have hfarewell : a.Farewell cfg world P ↔ ∃ closeCode, (Reader.run a.session.keys P
      (readerEvents a.session.seen hs.reads)
      ⟨.start, (a.start.connected a.session hs).handler, a.session.seen 0, [], []⟩).1 = .closed closeCode := by
    rw [Reader.run_closed_iff]
    constructor
    · rintro ⟨hs', hall', h⟩
      rw [hall] at hall'
      cases hall'
      exact h
    · exact fun h => ⟨hs, hall, h⟩
  rw [hout] at hstop ⊢
  rw [hfarewell]
  generalize (Reader.run (C := C) (η := η) _ _ _ _).1 = read at hstop ⊢
  cases hst : a.session.stopped with
  | true =>
    rw [hst] at hstop
    exact absurd rfl hstop
  | false => cases read <;> simp [sessionOutcome]

variable {cfg world P}

/-- A session after which there is another was not ended by a stop. -/
theorem Life.not_stopped {s : Supervisor η σ} {as : List (Attempt C η σ)} {out : Bool} {d : Bool × Supervisor η σ}
    (h : Life cfg world P s as out d) : as.Pairwise fun a _ => (a.result cfg world P).outcome ≠ .stopped := by
  induction h with
  | running s => exact .nil
  | returned he => exact .nil
  | last hw he ho => exact List.pairwise_singleton _ _
  | next hw hwait hne h ih => exact .cons (fun _ _ => hne) ih

variable (cfg world P)

theorem failsUnestablished (a : Attempt C η σ) : FailsUnestablished (a.result cfg world P) :=
  sessionOnce_unestablished cfg world P

/-- Between any two consecutive sessions the handler is told once that the
connection closed, all along a run of the supervisor, if and only if of any two
sessions that are established the Miniserver took its leave of the first. -/
theorem losses_announced_iff (setup : Except Error Unit) (rounds : List (Round C σ)) (handler : η)
    (shared : SharedState σ) :
    LossesAnnounced (runSupervisor cfg world P setup rounds handler shared).2.events ↔
      (runAttempts cfg world P setup rounds handler shared).Pairwise fun a b =>
        a.Established cfg world P → b.Established cfg world P → a.Farewell cfg world P := by
  obtain ⟨out, hl⟩ := runSupervisor_life cfg world P setup rounds handler shared
  rcases hrun : runSupervisor cfg world P setup rounds handler shared with ⟨go, s⟩
  rw [hrun] at hl
  have hlast : ∀ e ∈ (if go then [] else [ClientEvent.closed]), e.isConnected = false := by
    cases go <;> simp [ClientEvent.isConnected]
  have hfails : ∀ x ∈ (runAttempts cfg world P setup rounds handler shared).map (Attempt.result cfg world P),
      FailsUnestablished x := by
    intro x hx
    obtain ⟨a, -, rfl⟩ := List.mem_map.mp hx
    exact failsUnestablished cfg world P a
  rw [hl.events]
  refine (lossesAnnounced_eventsOf hfails hlast _).trans ?_
  rw [List.pairwise_map]
  refine ⟨fun h => ?_, fun h => ?_⟩
  · refine (hl.not_stopped.and h).imp fun {a b} hab ha hb => ?_
    exact (disconnected_iff cfg world P ha hab.1).mp
      (hab.2 ((established_iff cfg world P a).mpr ha) ((established_iff cfg world P b).mpr hb))
  · refine (hl.not_stopped.and h).imp fun {a b} hab ha hb => ?_
    have hest := (established_iff cfg world P a).mp ha
    exact (disconnected_iff cfg world P hest hab.1).mpr (hab.2 hest ((established_iff cfg world P b).mp hb))

/-! ## An idle timeout -/

/-- No status updates, and `attempts` attempts in a row. -/
def reuseConfig (attempts : UInt32) : ConnectConfig :=
  { sampleConfig with receiveUpdates := false, maxReconnectAttempts := attempts }

/-- A token that is not displaced. -/
def reusing : SharedState (Option LxToken) := ⟨TokenRace.refreshedToken, none⟩

/-- The Miniserver answers the handshake and then falls silent. -/
def idleRound : Round sampleCrates (Option LxToken) where
  stoppedAtTop := false
  session := displacingSession Pos.start (answerFrames TokenRace.keyAnswer ++
    (answerFrames TokenRace.keyAnswer ++ (answerFrames TokenRace.refreshAnswer ++ [])))
  stoppedInWait := false

/-- A client that holds the token and may connect. -/
structure Reusing (s : Supervisor Unit (Option LxToken)) : Prop where
  panicked : s.handler.panicked = false
  cmdRx : s.cmdRx = true
  shared : s.shared = reusing

theorem announceable_keyAnswer : Announceable TokenRace.keyAnswer := ⟨by decide, by decide⟩

theorem announceable_refreshAnswer : Announceable TokenRace.refreshAnswer := ⟨by decide, by decide⟩

/-- Of the answer to the key exchange only the code is read. -/
theorem takesBack_sample : TakesBack TokenRace.sampleParsers TokenRace.refreshedToken TokenRace.refreshedToken
    TokenRace.keyAnswer TokenRace.keyAnswer TokenRace.refreshAnswer where
  announceable := ⟨announceable_keyAnswer, announceable_keyAnswer, announceable_refreshAnswer⟩
  exchanged := by
    rw [TokenRace.parseJson_keyAnswer]
    exact ⟨_, rfl⟩
  hash := by
    simp only [buildTokenHash, parseGetkeyValue, TokenRace.parseJson_keyAnswer]
    exact ⟨_, rfl⟩
  accepted := by
    rw [payloadLlStatus, TokenRace.parseJson_refreshAnswer]
    rfl
  token := by
    simp only [applyValidUntil, llValue, TokenRace.parseJson_refreshAnswer]
    rfl

section

variable {answer : Bytes} {document : Json} (hne : TokenRace.keyAnswer ≠ answer)

include hne

theorem parseJson_keyAnswer_also :
    parseJson (TokenRace.sampleParsers.also answer document) TokenRace.keyAnswer = .ok TokenRace.keyDocument :=
  (parseJson_also_of_ne _ hne _).trans TokenRace.parseJson_keyAnswer

theorem buildTokenHash_also (token : LxToken) :
    ∃ hash, buildTokenHash (TokenRace.sampleParsers.also answer document) TokenRace.keyAnswer token = .ok hash := by
  simp only [buildTokenHash, parseGetkeyValue, parseJson_keyAnswer_also hne]
  exact ⟨_, rfl⟩

theorem takesBack_also {token token' : LxToken} {auth : Bytes} (ha : Announceable auth)
    (haccepted : payloadLlStatus (TokenRace.sampleParsers.also answer document) auth = some "200".toList)
    (htoken : applyValidUntil (TokenRace.sampleParsers.also answer document) token auth = .ok token') :
    TakesBack (TokenRace.sampleParsers.also answer document) token token' TokenRace.keyAnswer TokenRace.keyAnswer
      auth where
  announceable := ⟨announceable_keyAnswer, announceable_keyAnswer, ha⟩
  exchanged := by
    rw [parseJson_keyAnswer_also hne]
    exact ⟨_, rfl⟩
  hash := buildTokenHash_also hne token
  accepted := haccepted
  token := htoken

end

theorem not_displaces_reusing : ¬ Displaces sampleWorld Pos.start reusing := by
  rintro ⟨-, h⟩
  revert h
  decide

/-- A session in which the Miniserver takes the token back, answering `auth`, and
then falls silent. -/
def silentSession (pos : Pos) (auth : Bytes) : SessionWorld sampleCrates (Option LxToken) :=
  displacingSession pos (answerFrames TokenRace.keyAnswer ++ (answerFrames TokenRace.keyAnswer ++
    (answerFrames auth ++ [])))

section

variable {world : World} {P : Parsers} {pos : Pos} {auth : Bytes} {s : Supervisor Unit (Option LxToken)}
  {token' : LxToken}

/-- The session is established, and ends with the idle timeout. -/
theorem sessionOnce_silent (n : UInt32) (hp : s.handler.panicked = false) (hne : s.shared.token.isEmpty = false)
    (hd : ¬ Displaces world pos s.shared)
    (hback : TakesBack P s.shared.token token' TokenRace.keyAnswer TokenRace.keyAnswer auth) :
    ∃ s', sessionOnce (reuseConfig n) world P (silentSession pos auth) s =
        (⟨.failed (.timeout "no frame within the reader idle window".toList), true, some 0⟩, s') ∧
      s'.handler.panicked = false ∧ s'.cmdRx = s.cmdRx ∧ s'.shared = s.shared.setToken token' ∧
      s'.attempt = s.attempt := by
  obtain ⟨hs, hall, hreads, hp', hshared⟩ := Handshake.all_reuses ⟨world, P, sampleKeys, reuseConfig n⟩
    LoxHandler.quiet_unit sampleCrates_lawful.toTotal rfl (s := s.handshakeState (silentSession pos auth)) hne hd hback
    rfl rfl hp (silentSession pos auth).sessionB64
  refine ⟨{ s.connected (silentSession pos auth) hs with state := .reconnecting }, ?_, hp', rfl, hshared, rfl⟩
  have hsetup : (silentSession pos auth).setup = .ok () := rfl
  have hkeys : (silentSession pos auth).keys = sampleKeys := rfl
  simp only [sessionOnce, hsetup, hkeys, hall, hreads]
  rfl

theorem round_silent {n : UInt32} (hp : s.handler.panicked = false) (hrx : s.cmdRx = true)
    (hne : s.shared.token.isEmpty = false) (hd : ¬ Displaces world pos s.shared)
    (hback : TakesBack P s.shared.token token' TokenRace.keyAnswer TokenRace.keyAnswer auth)
    (hleft : shouldContinue s.attempt n = true) :
    ∃ s', round (reuseConfig n) world P ⟨false, silentSession pos auth, false⟩ s = (true, s') ∧
      s'.handler.panicked = false ∧ s'.cmdRx = true ∧ s'.shared = s.shared.setToken token' ∧
      s'.everConnected = true ∧ s'.attempt = s.attempt + 1 ∧
      s'.events = s.events ++ [if s.everConnected then .reconnected else .connected] := by
  obtain ⟨s₁, hsess, hp₁, -, hshared, hatt⟩ := sessionOnce_silent (s := s.starting) n hp hne hd hback
  have hwent := sessionOnce_went (reuseConfig n) world P (silentSession pos auth) s.starting
  let s₂ : Supervisor Unit (Option LxToken) := { s₁ with cmdRx := true, everConnected := true }
  have hafter : afterSession ⟨.failed (.timeout "no frame within the reader idle window".toList), true, some 0⟩ s₁ =
      s₂ := rfl
  have hround : round (reuseConfig n) world P ⟨false, silentSession pos auth, false⟩ s =
      waitReconnect (reuseConfig n) false .normal s₂ := by
    rw [round_eq (reuseConfig n) world P (r := ⟨false, silentSession pos auth, false⟩) rfl hp hrx, hsess, hafter,
      react_plain _ ⟨rfl, rfl⟩]
    exact if_pos rfl
  rw [hsess, hafter] at hwent
  have hleft₂ : shouldContinue s₂.attempt n = true := by
    change shouldContinue s₁.attempt n = true
    rw [hatt]
    exact hleft
  exact ⟨_, hround.trans (waitReconnect_goes_on (reuseConfig n) hleft₂ .normal), hp₁, rfl, hshared, rfl,
    congrArg (· + 1) hatt, hwent.events⟩

end

section

variable {P : Parsers} (hback : TakesBack P TokenRace.refreshedToken TokenRace.refreshedToken
  TokenRace.keyAnswer TokenRace.keyAnswer TokenRace.refreshAnswer)

include hback

theorem sessionOnce_idle (n : UInt32) {s : Supervisor Unit (Option LxToken)} (h : Reusing s) :
    ∃ s', sessionOnce (reuseConfig n) sampleWorld P idleRound.session s =
        (⟨.failed (.timeout "no frame within the reader idle window".toList), true, some 0⟩, s') ∧
      Reusing s' ∧ s'.attempt = s.attempt := by
  obtain ⟨hp, hrx, hshared⟩ := h
  have hd : ¬ Displaces sampleWorld Pos.start s.shared := by
    rw [hshared]
    exact not_displaces_reusing
  rw [show TokenRace.refreshedToken = s.shared.token by rw [hshared]; rfl] at hback
  obtain ⟨s₁, hsess, hp₁, hrx₁, hshared₁, hatt⟩ := sessionOnce_silent n hp (by rw [hshared]; rfl) hd hback
  exact ⟨s₁, hsess, ⟨hp₁, hrx₁.trans hrx, hshared₁.trans (by rw [hshared]; rfl)⟩, hatt⟩

theorem round_idle {n : UInt32} {s : Supervisor Unit (Option LxToken)} (h : Reusing s)
    (hleft : shouldContinue s.attempt n = true) :
    ∃ s', round (reuseConfig n) sampleWorld P idleRound s = (true, s') ∧ Reusing s' ∧
      s'.everConnected = true ∧ s'.attempt = s.attempt + 1 ∧
      s'.events = s.events ++ [if s.everConnected then .reconnected else .connected] := by
  obtain ⟨hp, hrx, hshared⟩ := h
  have hd : ¬ Displaces sampleWorld Pos.start s.shared := by
    rw [hshared]
    exact not_displaces_reusing
  rw [show TokenRace.refreshedToken = s.shared.token by rw [hshared]; rfl] at hback
  obtain ⟨s₁, hround, hp₁, hrx₁, hshared₁, hev, hatt, hevents⟩ :=
    round_silent hp hrx (by rw [hshared]; rfl) hd hback hleft
  exact ⟨s₁, hround, ⟨hp₁, hrx₁, hshared₁.trans (by rw [hshared]; rfl)⟩, hev, hatt, hevents⟩

end

/-- Two sessions, each ended by the idle timeout: the handler is told that it is
connected and then that it is connected again, and of no loss. -/
theorem idle_timeout_unannounced :
    ∃ s, runSupervisor (reuseConfig 0) sampleWorld TokenRace.sampleParsers (.ok ()) [idleRound, idleRound] ()
        reusing = (true, s) ∧
      s.events = [.connected, .reconnected] ∧ ¬ LossesAnnounced s.events := by
  have hstart : Reusing (start () reusing) := ⟨rfl, rfl, rfl⟩
  obtain ⟨s₁, hr₁, h₁, hev₁, -, he₁⟩ := round_idle takesBack_sample (n := 0) hstart rfl
  obtain ⟨s₂, hr₂, -, -, -, he₂⟩ := round_idle takesBack_sample (n := 0) h₁ rfl
  have hevents : s₂.events = [.connected, .reconnected] := by
    rw [he₂, he₁, hev₁]
    rfl
  refine ⟨s₂, ?_, hevents, fun h => ?_⟩
  · exact (loop_cons _ _ _ hr₁ [idleRound]).trans (loop_cons _ _ _ hr₂ [])
  · have hloss := h [] .connected [.reconnected] hevents rfl [] .reconnected [] rfl rfl (List.forall_mem_nil _)
    cases hloss

end Supervisor

end Lox
