import LoxWebsocket.Framework.Bounded
import LoxWebsocket.Client.Panic
import LoxWebsocket.Client.Events

/-!
# Events through a channel

`ChannelHandler` copies the events into a bounded channel for a consumer on
another task. It must not wait, so an event that does not fit is dropped and
counted. Over any number of sessions, whatever the consumer does in the meantime:
what it has received and what waits for it are events that were called back, in
their order and each once, and the counter is the number of the others modulo
2^64; none is dropped as long as each finds room (`channel_exact`).

The handler is what its callbacks have made of it (`Told.replays`), and these are
a run of the producer of a bounded queue (`replay_channel`).
-/

namespace Lox

inductive OwnedEvent
  | value (record : ValueRecord)
  | text (record : TextRecord)
  | json (payload : Bytes)
  | binary (payload : Bytes)
  | keepalive
  | lifecycle (event : ClientEvent)
  deriving DecidableEq

/-- The copy of a callback's arguments; daytimers, weather and raw payloads are
not forwarded. -/
def Call.owned : Call → Option OwnedEvent
  | .onValue record => some (.value record)
  | .onText record => some (.text record)
  | .onJson payload => some (.json payload)
  | .onBinary payload => some (.binary payload)
  | .onKeepalive => some .keepalive
  | .onEvent event => some (.lifecycle event)
  | .onDaytimer _ | .onWeather _ | .onRawPayload _ _ => none

/-- The adapter, with the channel and what its consumer does before each event
that is sent. -/
structure ChannelHandler where
  tx : Bounded OwnedEvent
  dropped : UInt64
  turns : Bounded.Turns

namespace ChannelHandler

/-- The largest buffer of a channel, on a 64-bit platform (2^61 - 1). -/
def maxPermits : Nat := 2305843009213693951

/-- A channel has room for one event at least; `none` is a panic. -/
def new (buffer : Nat) (turns : Bounded.Turns) : Option ChannelHandler :=
  if 0 < buffer ∧ buffer ≤ maxPermits then some ⟨Bounded.new buffer, 0, turns⟩ else none

def send (event : OwnedEvent) (h : ChannelHandler) : ChannelHandler :=
  match Bounded.trySend event (h.tx.moves (h.turns 0)) with
  | (true, tx) => { h with tx, turns := h.turns.later }
  | (false, tx) => { tx, dropped := h.dropped + 1, turns := h.turns.later }

instance : LoxHandler ChannelHandler where
  call h c := (false, match c.owned with
    | some event => h.send event
    | none => h)

theorem quiet : LoxHandler.Quiet ChannelHandler := fun _ _ => rfl

/-- The callbacks send their events. -/
theorem replay_channel (h : ChannelHandler) (calls : List Call) :
    LoxHandler.replay h calls =
      ⟨(Bounded.sendAll h.turns (calls.filterMap Call.owned) h.tx).2,
        h.dropped + UInt64.ofNat (Bounded.sendAll h.turns (calls.filterMap Call.owned) h.tx).1,
        fun n => h.turns (n + (calls.filterMap Call.owned).length)⟩ := by
  induction calls generalizing h with
  | nil =>
    obtain ⟨tx, dropped, turns⟩ := h
    exact congrArg (ChannelHandler.mk tx · turns) (UInt64.add_zero dropped).symm
  | cons c calls ih =>
    have hstep : LoxHandler.replay h (c :: calls) = LoxHandler.replay (LoxHandler.call h c).2 calls := rfl
    rw [hstep, ih]
    cases hc : c.owned with
    | none =>
      have hcall : (LoxHandler.call h c).2 = h := by simp only [LoxHandler.call, hc]
      rw [hcall, List.filterMap_cons_none hc]
    | some event =>
      have hcall : (LoxHandler.call h c).2 = h.send event := by simp only [LoxHandler.call, hc]
      rw [hcall, List.filterMap_cons_some hc, send, Bounded.sendAll]
      cases hroom : (h.tx.moves (h.turns 0)).accepts with
      | true =>
        rw [Bounded.trySend_accepted hroom]
        rfl
      | false =>
        rw [Bounded.trySend_refused hroom]
        simp only [UInt64.ofNat_add, UInt64.add_assoc, UInt64.add_comm 1]
        rfl

/-- What has become of the events of the callbacks. -/
theorem new_replays {buffer : Nat} {turns : Bounded.Turns} {ch h : ChannelHandler} {calls : List Call}
    (hnew : new buffer turns = some ch) (hreplay : h = LoxHandler.replay ch calls) :
    ∃ lost, (h.tx.received ++ h.tx.queue).Sublist (calls.filterMap Call.owned) ∧ h.tx.queue.length ≤ buffer ∧
      (calls.filterMap Call.owned).length = (h.tx.received ++ h.tx.queue).length + lost ∧
      h.dropped = UInt64.ofNat lost ∧
      (lost = 0 ↔ Bounded.KeepsUp turns (calls.filterMap Call.owned) (.new buffer)) := by
  unfold new at hnew
  split at hnew
  · cases hnew
    rw [replay_channel] at hreplay
    generalize calls.filterMap Call.owned = events at hreplay ⊢
    obtain ⟨kept, hkept, haccepted, hqueue, hcount⟩ :=
      Bounded.sendAll_spec turns events (.new buffer) (Nat.zero_le _)
    have hall : h.tx.received ++ h.tx.queue = kept := by
      rw [hreplay]
      exact haccepted
    refine ⟨(Bounded.sendAll turns events (.new buffer)).1, ?_, ?_, ?_, ?_,
      Bounded.sendAll_lost_eq_zero_iff turns events (.new buffer)⟩
    · rw [hall]
      exact hkept
    · rw [hreplay]
      exact hqueue
    · rw [hall]
      exact hcount
    · rw [hreplay]
      exact UInt64.zero_add _
  · cases hnew

end ChannelHandler

/-- Over every run of a client: what its consumer has received, and what waits for
it, are events that were called back, in their order and each once; at most
`buffer` events wait; the counter is the number of the other events, modulo 2^64;
and there are none if and only if each event found room. -/
theorem channel_exact {C : Crates} {σ : Type} [TokenStore σ] (cfg : ConnectConfig) (world : World) (P : Parsers)
    (setup : Except Error Unit) (rounds : List (Round C σ)) {buffer : Nat} {turns : Bounded.Turns}
    {ch : ChannelHandler} (hnew : ChannelHandler.new buffer turns = some ch) (shared : SharedState σ) :
    let g := (Supervisor.runSupervisor cfg world P setup rounds ch shared).2.handler
    let events := g.calls.filterMap Call.owned
    ∃ lost, (g.handler.tx.received ++ g.handler.tx.queue).Sublist events ∧ g.handler.tx.queue.length ≤ buffer ∧
      events.length = (g.handler.tx.received ++ g.handler.tx.queue).length + lost ∧
      g.handler.dropped = UInt64.ofNat lost ∧ (lost = 0 ↔ Bounded.KeepsUp turns events (.new buffer)) := by
  intro g events
  obtain ⟨hheard, -⟩ := Supervisor.runSupervisor_heard ch cfg world P setup rounds shared
  have htold := hheard.2 (Supervisor.start_told ch shared)
  exact ChannelHandler.new_replays hnew htold.replays

/-- The announcement of the end fits into a channel for one event. -/
theorem channel_exact_one :
    ∃ ch, ChannelHandler.new 1 (fun _ => []) = some ch ∧
      (Supervisor.runSupervisor Supervisor.sampleConfig sampleWorld Parsers.rejecting (.ok ())
        [Supervisor.closedRound []] ch Supervisor.reusing).2.handler.handler.tx.queue.length ≤ 1 := by
  have hnew : ChannelHandler.new 1 (fun _ => []) = some ⟨.new 1, 0, fun _ => []⟩ := if_pos (by decide)
  obtain ⟨lost, -, hqueue, -⟩ := channel_exact Supervisor.sampleConfig sampleWorld Parsers.rejecting (.ok ())
    [Supervisor.closedRound []] hnew Supervisor.reusing
  exact ⟨_, hnew, hqueue⟩

/-! ## From the wire to the consumer -/

def OwnedEvent.isState : OwnedEvent → Bool
  | .value _ | .text _ | .binary _ => true
  | _ => false

theorem isState_of_owned {c : Call} {event : OwnedEvent} (h : c.owned = some event) : event.isState = c.isState := by
  cases c with
  | onDaytimer event => cases h
  | onWeather event => cases h
  | onRawPayload msgType payload => cases h
  | _ =>
    cases h
    rfl

/-- The events that carry state are those of the callbacks that do. -/
theorem filter_isState_owned (calls : List Call) :
    (calls.filterMap Call.owned).filter OwnedEvent.isState = (stateCalls calls).filterMap Call.owned := by
  induction calls with
  | nil => rfl
  | cons c calls ih =>
    rw [stateCalls] at ih ⊢
    cases hc : c.owned with
    | none =>
      rw [List.filterMap_cons_none hc, ih]
      by_cases hs : c.isState = true
      · rw [List.filter_cons_of_pos hs, List.filterMap_cons_none hc]
      · rw [List.filter_cons_of_neg hs]
    | some event =>
      have hstate := isState_of_owned hc
      rw [List.filterMap_cons_some hc]
      by_cases hs : c.isState = true
      · rw [List.filter_cons_of_pos (hstate.trans hs), List.filter_cons_of_pos hs, List.filterMap_cons_some hc, ih]
      · rw [List.filter_cons_of_neg (hstate ▸ hs), List.filter_cons_of_neg hs, ih]

/-- A first session on the frames of the messages `ms`, whose consumer leaves room
for each event: if it is established, the values, texts and files that the consumer
has received or that wait for it are those of the messages, in their order, each
once. -/
theorem channel_carries_events {C : Crates} {σ : Type} [TokenStore σ] (cfg : ConnectConfig) (world : World)
    (P : Parsers) (w : SessionWorld C σ) (hsetup : w.setup = .ok ()) {ms : List Msg} (hst : Stream ms w.reads)
    {buffer : Nat} {turns : Bounded.Turns} {ch : ChannelHandler}
    (hnew : ChannelHandler.new buffer turns = some ch) (shared : SharedState σ)
    {r : SessionResult × Supervisor ChannelHandler σ}
    (hr : Supervisor.sessionOnce cfg world P w (.start ch shared) = r)
    (hkeepsUp : Bounded.KeepsUp turns (r.2.handler.calls.filterMap Call.owned) (.new buffer))
    (hestablished : r.1.connectedFor ≠ none) :
    (r.2.handler.handler.tx.received ++ r.2.handler.handler.tx.queue).filter OwnedEvent.isState =
        (messageCalls ms).filterMap Call.owned ∧
      r.2.handler.handler.dropped = 0 := by
  have htold := (Supervisor.sessionOnce_heard ch cfg world P w (.start ch shared)).2 (Supervisor.start_told ch shared)
  obtain ⟨l, -, hsaw, hshown, hall⟩ := sessionOnce_saw ChannelHandler.quiet cfg world P w hsetup hst (.start ch shared)
    rfl
  rw [hr] at htold hsaw hshown hall
  obtain ⟨rfl, -⟩ := hall hestablished
  have hcalls : stateCalls r.2.handler.calls = messageCalls l := stateCalls_of_saw hsaw hshown
  obtain ⟨lost, hsub, -, hcount, hdropped, hlost⟩ := ChannelHandler.new_replays hnew htold.replays
  have hzero : lost = 0 := hlost.mpr hkeepsUp
  rw [hzero] at hcount hdropped
  have hevents : r.2.handler.handler.tx.received ++ r.2.handler.handler.tx.queue =
      r.2.handler.calls.filterMap Call.owned := hsub.eq_of_length hcount.symm
  refine ⟨?_, hdropped⟩
  rw [hevents, filter_isState_owned, hcalls]

/-- The consumer takes each event before the next one; the table of the session
reaches it. -/
theorem channel_carries_table :
    ∃ ch r, ChannelHandler.new 8 (fun _ => [.recv]) = some ch ∧
      Supervisor.sessionOnce (Supervisor.reuseConfig 0) sampleWorld TokenRace.sampleParsers tableSession
        (.start ch Supervisor.reusing) = r ∧
      (r.2.handler.handler.tx.received ++ r.2.handler.handler.tx.queue).filter OwnedEvent.isState =
        [.value ⟨Vector.replicate 16 0, 0⟩] := by
  have hnew : ChannelHandler.new 8 (fun _ => [.recv]) = some ⟨.new 8, 0, fun _ => [.recv]⟩ := if_pos (by decide)
  obtain ⟨hs, hall, -⟩ := Handshake.all_reuses ⟨sampleWorld, TokenRace.sampleParsers, sampleKeys,
      Supervisor.reuseConfig 0⟩ ChannelHandler.quiet sampleCrates_lawful.toTotal rfl
    (s := (Supervisor.start (⟨.new 8, 0, fun _ => [.recv]⟩ : ChannelHandler) Supervisor.reusing).handshakeState
      tableSession) rfl Supervisor.not_displaces_reusing
    Supervisor.takesBack_sample rfl rfl rfl tableSession.sessionB64
  obtain ⟨r, hr⟩ : ∃ r, Supervisor.sessionOnce (Supervisor.reuseConfig 0) sampleWorld TokenRace.sampleParsers
      tableSession (.start (⟨.new 8, 0, fun _ => [.recv]⟩ : ChannelHandler) Supervisor.reusing) = r := ⟨_, rfl⟩
  have hestablished : r.1.connectedFor ≠ none := by
    have hsetup : tableSession.setup = .ok () := rfl
    have hkeys : tableSession.keys = sampleKeys := rfl
    simp only [← hr, Supervisor.sessionOnce, hsetup, hkeys, hall]
    exact Option.some_ne_none _
  have hkeepsUp (events : List OwnedEvent) : Bounded.KeepsUp (fun _ => [.recv]) events (.new 8) :=
    Bounded.keepsUp_eager events rfl (by decide) (by decide)
  have htable : (messageCalls [(0, TokenRace.keyAnswer), (0, TokenRace.keyAnswer), (0, TokenRace.refreshAnswer),
      valueTable]).filterMap Call.owned = [.value ⟨Vector.replicate 16 0, 0⟩] := by decide
  obtain ⟨hevents, -⟩ := channel_carries_events (Supervisor.reuseConfig 0) sampleWorld TokenRace.sampleParsers
    tableSession rfl tableSession_stream hnew Supervisor.reusing hr (hkeepsUp _) hestablished
  exact ⟨_, r, hnew, hr, hevents.trans htable⟩

end Lox
