import LoxWebsocket.Client.Losses

/-!
# The metrics of the connection

`markConnected` is called when a session is established, and `markDisconnected`
by the supervisor when it deals with a session that ended with a close code. In
between the session has ended, the state of the client is `reconnecting`, and the
supervisor waits for the writer: the metrics still have the session. So they agree
with the connection up to some point of a run if and only if no session that was
established has ended until then (`metrics_agree_iff`). After an idle timeout the
client counts itself connected for good (`idle_timeout_counts_on`).
-/

namespace Lox

/-- The metrics of the connection. -/
structure ConnMetrics where
  connects : UInt64
  reconnects : UInt64
  reconnectFailures : UInt64
  disconnects : UInt64
  disconnectsByCloseCode : Option UInt16 → UInt64
  /-- The clock when the current connection was established. -/
  connectedSince : Option Nat

namespace ConnMetrics

def zero : ConnMetrics := ⟨0, 0, 0, 0, fun _ => 0, none⟩

def markConnected (now : Nat) (m : ConnMetrics) : ConnMetrics := { m with connectedSince := some now }

def markDisconnected (closeCode : Option UInt16) (m : ConnMetrics) : ConnMetrics :=
  { m with
    disconnects := m.disconnects + 1
    disconnectsByCloseCode := fun code =>
      if code = closeCode then m.disconnectsByCloseCode code + 1 else m.disconnectsByCloseCode code
    connectedSince := none }

/-- Seconds since the current connection was established. -/
def uptimeSeconds (now : Nat) (m : ConnMetrics) : Nat :=
  match m.connectedSince with
  | some since => now - since
  | none => 0

/-- In `sessionOnce`, after the handshake. -/
def established (now : Nat) (isReconnect : Bool) (m : ConnMetrics) : ConnMetrics :=
  if isReconnect then { m.markConnected now with reconnects := m.reconnects + 1 }
  else { m.markConnected now with connects := m.connects + 1 }

/-- In the supervisor, by the outcome of the session. -/
def handled (outcome : SessionOutcome) (m : ConnMetrics) : ConnMetrics :=
  match outcome with
  | .stopped => m
  | .disconnected closeCode => m.markDisconnected closeCode
  | .failed _ => { m with reconnectFailures := m.reconnectFailures + 1 }

/-- The metrics agree with whether a session is established. -/
structure Agrees (connected : Bool) (m : ConnMetrics) : Prop where
  since : m.connectedSince.isSome = connected
  uptime : connected = false → ∀ now, m.uptimeSeconds now = 0
  count : m.connects.toNat + m.reconnects.toNat = m.disconnects.toNat + if connected then 1 else 0

/-- No session has been established. -/
structure Untouched (m : ConnMetrics) : Prop where
  connects : m.connects = 0
  reconnects : m.reconnects = 0
  disconnects : m.disconnects = 0
  since : m.connectedSince = none

variable {m : ConnMetrics}

theorem zero_untouched : zero.Untouched := ⟨rfl, rfl, rfl, rfl⟩

theorem Untouched.agrees (h : m.Untouched) : m.Agrees false where
  since := by rw [h.since]; rfl
  uptime _ now := by rw [uptimeSeconds, h.since]
  count := by rw [h.connects, h.reconnects, h.disconnects]; rfl

/-- The first session. -/
theorem Untouched.established (h : m.Untouched) (now : Nat) (isReconnect : Bool) :
    (m.established now isReconnect).Agrees true := by
  obtain ⟨hc, hr, hd, -⟩ := h
  cases isReconnect with
  | false => exact ⟨rfl, nofun, by simp [ConnMetrics.established, markConnected, hc, hr, hd]⟩
  | true => exact ⟨rfl, nofun, by simp [ConnMetrics.established, markConnected, hc, hr, hd]⟩

/-- A session that was not established changes nothing of the connection. -/
theorem Untouched.failed (h : m.Untouched) (e : Error) : (m.handled (.failed e)).Untouched :=
  ⟨h.connects, h.reconnects, h.disconnects, h.since⟩

/-- While a session is counted, the metrics do not agree with there being none. -/
theorem Agrees.not_agrees (h : m.Agrees true) : ¬ m.Agrees false := fun h' =>
  Bool.false_ne_true (h'.since.symm.trans h.since)

end ConnMetrics

namespace Supervisor

variable {C : Crates} {η σ : Type} [LoxHandler η] [TokenStore σ] (cfg : ConnectConfig) (world : World)
  (P : Parsers)

/-- The metrics, and whether a session is established. -/
structure Observation where
  connected : Bool
  metrics : ConnMetrics

/-- The metrics at the end of the handshake of a session, if it is completed;
`clock` is the clock then. -/
def metricsIn (clock : Attempt C η σ → Nat) (a : Attempt C η σ) (m : ConnMetrics) : ConnMetrics :=
  if (a.result cfg world P).established then m.established (clock a) a.start.everConnected else m

/-- The metrics when the supervisor has dealt with the end of a session. -/
def metricsAfter (clock : Attempt C η σ → Nat) (a : Attempt C η σ) (m : ConnMetrics) : ConnMetrics :=
  (metricsIn cfg world P clock a m).handled (a.result cfg world P).outcome

/-- What can be seen of a session from `m`: while it is established, when its
reader has ended and the supervisor waits for the writer, and when the supervisor
has dealt with it; of one that is not established, before and after the supervisor
has dealt with it. -/
def seen (clock : Attempt C η σ → Nat) (a : Attempt C η σ) (m : ConnMetrics) : List Observation :=
  (if (a.result cfg world P).established then
      [⟨true, metricsIn cfg world P clock a m⟩, ⟨false, metricsIn cfg world P clock a m⟩]
    else [⟨false, m⟩]) ++ [⟨false, metricsAfter cfg world P clock a m⟩]

/-- What can be seen of the sessions in turn. -/
def observe (clock : Attempt C η σ → Nat) : List (Attempt C η σ) → ConnMetrics → List Observation
  | [], _ => []
  | a :: as, m => seen cfg world P clock a m ++ observe clock as (metricsAfter cfg world P clock a m)

/-- The metrics over a run of the supervisor. -/
def runObserve (clock : Attempt C η σ → Nat) (setup : Except Error Unit) (rounds : List (Round C σ)) (handler : η)
    (shared : SharedState σ) : List Observation :=
  ⟨false, .zero⟩ :: observe cfg world P clock (runAttempts cfg world P setup rounds handler shared) .zero

/-- Up to some point, once a session is established it has not ended. -/
def NoneEnded (os : List Observation) : Prop := os.Pairwise fun o o' => o.connected = true → o'.connected = true

/-- The metrics agree all along. -/
def AllAgree (os : List Observation) : Prop := ∀ o ∈ os, o.metrics.Agrees o.connected

/-- Before a session is established the metrics agree. -/
theorem agree_cons_iff {o : Observation} {os : List Observation} (hno : o.connected = false)
    (ho : o.metrics.Agrees false) : (AllAgree (o :: os) ↔ NoneEnded (o :: os)) ↔ (AllAgree os ↔ NoneEnded os) := by
  have hagree : AllAgree (o :: os) ↔ AllAgree os := by simp [AllAgree, hno, ho]
  have hended : NoneEnded (o :: os) ↔ NoneEnded os := by simp [NoneEnded, hno]
  rw [hagree, hended]

/-- With a session established they agree, and do not when it has ended. -/
theorem agree_of_established {m : ConnMetrics} (hm : m.Agrees true) (rest : List Observation) (n : Nat) :
    AllAgree ((⟨true, m⟩ :: ⟨false, m⟩ :: rest).take n) ↔ NoneEnded ((⟨true, m⟩ :: ⟨false, m⟩ :: rest).take n) := by
  rcases n with _ | _ | n
  · simp [AllAgree, NoneEnded]
  · simp [AllAgree, NoneEnded, hm]
  · simp [AllAgree, NoneEnded, hm.not_agrees]

/-- Over sessions before which none was established, up to any point. -/
theorem observe_agrees (clock : Attempt C η σ → Nat) (as : List (Attempt C η σ)) {m : ConnMetrics}
    (hm : m.Untouched) (n : Nat) :
    AllAgree ((observe cfg world P clock as m).take n) ↔ NoneEnded ((observe cfg world P clock as m).take n) := by
  induction as generalizing m n with
  | nil => simp [observe, AllAgree, NoneEnded]
  | cons a as ih =>
    rw [observe, seen]
    cases hest : (a.result cfg world P).established with
    | true =>
      have hin : (metricsIn cfg world P clock a m).Agrees true := by
        rw [metricsIn, hest]
        exact hm.established _ _
      exact agree_of_established hin _ n
    | false =>
      -- a failed attempt is counted as such and nothing else
      obtain ⟨e, he⟩ := failsUnestablished cfg world P a hest
      have hafter : (metricsAfter cfg world P clock a m).Untouched := by
        rw [metricsAfter, metricsIn, hest, he]
        exact hm.failed e
      rcases n with _ | _ | n
      · simp [AllAgree, NoneEnded]
      · simp [AllAgree, NoneEnded, hm.agrees]
      · exact (agree_cons_iff rfl hm.agrees).mpr ((agree_cons_iff rfl hafter.agrees).mpr (ih hafter n))

/-- Up to any point of a run, the metrics agree with the connection if and only if
no session that was established has ended. -/
theorem metrics_agree_iff (clock : Attempt C η σ → Nat) (setup : Except Error Unit) (rounds : List (Round C σ))
    (handler : η) (shared : SharedState σ) (n : Nat) :
    (∀ o ∈ (runObserve cfg world P clock setup rounds handler shared).take n, o.metrics.Agrees o.connected) ↔
      ((runObserve cfg world P clock setup rounds handler shared).take n).Pairwise
        fun o o' => o.connected = true → o'.connected = true := by
  cases n with
  | zero => simp
  | succ n =>
    exact (agree_cons_iff rfl ConnMetrics.zero_untouched.agrees).mpr
      (observe_agrees cfg world P clock _ ConnMetrics.zero_untouched n)

/-- After a round the supervisor goes on from, it is reconnecting. -/
theorem state_of_round {r : Round C σ} {s s' : Supervisor η σ} (h : round cfg world P r s = (true, s')) :
    s'.state = .reconnecting := by
  have hwait {stopped : Bool} {backoff : Backoff} {s₁ : Supervisor η σ}
      (hw : waitReconnect cfg stopped backoff s₁ = (true, s')) : s'.state = .reconnecting := by
    rcases waitReconnect_cases cfg stopped backoff s₁ with ⟨-, h⟩ | ⟨-, -, h⟩ | ⟨-, -, h⟩
    all_goals
      rw [h] at hw
      cases hw
    rfl
  cases ha : attempted r s with
  | none =>
    obtain ⟨s₁, hr, -⟩ := round_unattempted cfg world P ha
    rw [hr] at h
    cases h
  | some a =>
    obtain ⟨htop, hpanic, hrx, -⟩ := attempted_eq_some ha
    rw [round_eq cfg world P htop hpanic hrx] at h
    unfold react at h
    split at h
    · cases h
    · exact hwait h

/-- A session that falls silent: the supervisor waits for the next, and the
metrics have it that the client is connected, and was never disconnected. -/
theorem idle_timeout_counts_on :
    ∃ s m, runSupervisor (reuseConfig 0) sampleWorld TokenRace.sampleParsers (.ok ()) [idleRound] () reusing =
        (true, s) ∧ s.state = .reconnecting ∧
      (runObserve (reuseConfig 0) sampleWorld TokenRace.sampleParsers (fun _ => 100) (.ok ()) [idleRound] ()
        reusing).getLast? = some ⟨false, m⟩ ∧
      m.connects = 1 ∧ m.disconnects = 0 ∧ m.uptimeSeconds 3700 = 3600 ∧ ¬ m.Agrees false := by
  have hstart : Reusing (start () reusing) := ⟨rfl, rfl, rfl⟩
  obtain ⟨s₁, hr, -⟩ := round_idle takesBack_sample (n := 0) hstart rfl
  obtain ⟨s₂, hsess, -⟩ := sessionOnce_idle takesBack_sample 0 (s := (start () reusing).starting) ⟨rfl, rfl, rfl⟩
  obtain ⟨a, ha⟩ : ∃ a : Attempt sampleCrates Unit (Option LxToken),
      a = ⟨idleRound.session, (start () reusing).starting⟩ := ⟨_, rfl⟩
  have hresult : a.result (reuseConfig 0) sampleWorld TokenRace.sampleParsers =
      ⟨.failed (.timeout "no frame within the reader idle window".toList), true, some 0⟩ := by
    rw [ha, Attempt.result, hsess]
  have hfirst : a.start.everConnected = false := by
    rw [ha]
    rfl
  have hattempts : runAttempts (reuseConfig 0) sampleWorld TokenRace.sampleParsers (.ok ()) [idleRound] () reusing =
      [a] := by
    rw [runAttempts, attempts_last _ _ _ rfl rfl rfl, ha]
  refine ⟨s₁, metricsAfter (reuseConfig 0) sampleWorld TokenRace.sampleParsers (fun _ => 100) a .zero,
    loop_cons _ _ _ hr [], state_of_round _ _ _ hr, ?_, ?_⟩
  · rw [runObserve, hattempts, observe, observe, List.append_nil, seen, ← List.cons_append, List.getLast?_concat]
  · rw [metricsAfter, metricsIn, hresult, hfirst]
    exact ⟨rfl, rfl, rfl, fun h => absurd h.since (by decide)⟩

end Supervisor

end Lox
