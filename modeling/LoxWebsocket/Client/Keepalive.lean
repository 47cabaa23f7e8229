import LoxWebsocket.Client.Writer
import LoxWebsocket.Framework.Run

/-!
# Keepalives and their answers

The writer counts the keepalives it sends and the reader those that were answered,
each in several accesses to what they share, between which the other may go on
(`step`). On its own each does what `recordAck` and `onKeepaliveTick` do
(`run_reader`, `run_writer`).

What holds however they interleave (`Exact`): no more are counted as answered than
were sent, and an answer counts for at most one that was sent before it came; a
session whose keepalives are all answered is not discarded; and without answers it
is, after at most `max` more were sent. The second fails for a `max` of zero, where
nothing that is unanswered is enough (`exact_iff`). The counters are numbers here,
and of 64 bits in the source, where they wrap after `2 ^ 64` keepalives and not
before (`run_wrappingStep`).

The instant a keepalive was sent at is kept in one place, which the next overwrites
and an answer empties. So the round trip that is measured is that of the keepalive
the answer is for if and only if no other was sent, and no answer came, in between
(`recordAck_returns_iff`).
-/

namespace Lox

namespace Keepalive

/-- Where the reader is in `record_ack`. -/
inductive ReaderAt
  | idle
  | loaded (sent : Nat)
  | counted
  deriving DecidableEq

/-- Where the writer is in `on_keepalive_tick`. -/
inductive WriterAt
  | idle
  | loaded (sent : Nat)
  | passed
  | stamped
  | stopped
  deriving DecidableEq

structure State where
  live : Liveness
  reader : ReaderAt
  writer : WriterAt
  deriving DecidableEq

inductive Label
  | reader
  | writer (now : Instant)
  deriving DecidableEq

def init : State := ⟨Liveness.new, .idle, .idle⟩

/-- One access of the reader, to begin with when a type-6 message has come. -/
def readerStep (s : State) : State :=
  match s.reader with
  | .idle => { s with reader := .loaded s.live.sent }
  | .loaded sent =>
    { s with
      live := { s.live with acked := if s.live.acked < sent then s.live.acked + 1 else s.live.acked }
      reader := .counted }
  | .counted => { s with live := { s.live with sentAt := none }, reader := .idle }

/-- One access of the writer, to begin with at a tick. -/
def writerStep (max : Nat) (now : Instant) (s : State) : Option State :=
  match s.writer with
  | .idle => some { s with writer := .loaded s.live.sent }
  | .loaded sent => some { s with writer := if sent - s.live.acked ≥ max then .stopped else .passed }
  | .passed => some { s with live := { s.live with sentAt := some now }, writer := .stamped }
  | .stamped => some { s with live := { s.live with sent := s.live.sent + 1 }, writer := .idle }
  | .stopped => none

def step (max : Nat) (s : State) : Label → Option State
  | .reader => some (readerStep s)
  | .writer now => writerStep max now s

/-! ## Each on its own -/

/-- The accesses of the reader, one after another, are `recordAck`. -/
theorem run_reader (max : Nat) (live : Liveness) (writer : WriterAt) :
    run (step max) ⟨live, .idle, writer⟩ [.reader, .reader, .reader] = some ⟨live.recordAck.2, .idle, writer⟩ := rfl

/-- The accesses of the writer, one after another, are `onKeepaliveTick`. -/
theorem run_writer {C : Crates} (env : WriterEnv C) (now : Instant) (w : WriterState) (reader : ReaderAt) :
    (∃ s, run (step env.cfg.maxMissedKeepalives) ⟨w.liveness, reader, .idle⟩ [.writer now, .writer now] = some s ∧
      (s.writer = .stopped ↔ (Writer.onKeepaliveTick env now w).1 = .stop)) ∧
    ((Writer.onKeepaliveTick env now w).1 ≠ .stop →
      run (step env.cfg.maxMissedKeepalives) ⟨w.liveness, reader, .idle⟩ (List.replicate 4 (.writer now)) =
        some ⟨(Writer.onKeepaliveTick env now w).2.liveness, reader, .idle⟩) := by
  unfold Writer.onKeepaliveTick
  by_cases hstop : w.liveness.missed ≥ env.cfg.maxMissedKeepalives
  · have hdecide : w.liveness.sent - w.liveness.acked ≥ env.cfg.maxMissedKeepalives := hstop
    rw [if_pos hstop]
    refine ⟨⟨_, rfl, ?_⟩, fun h => absurd rfl h⟩
    simp [hdecide]
  · have hdecide : ¬ w.liveness.sent - w.liveness.acked ≥ env.cfg.maxMissedKeepalives := hstop
    rw [if_neg hstop]
    refine ⟨⟨_, rfl, ?_⟩, fun _ => ?_⟩
    · simp [hdecide]
    · simp only [List.replicate, run, step, writerStep, Option.bind_some, hdecide, if_false]
      rfl

/-! ## What every access keeps -/

/-- What a task has loaded is not newer than what is there, and the writer only goes
on if there is something to tolerate. -/
structure Inv (max : Nat) (s : State) : Prop where
  acked_le : s.live.acked ≤ s.live.sent
  reader_le : ∀ sent, s.reader = .loaded sent → sent ≤ s.live.sent
  writer_eq : ∀ sent, s.writer = .loaded sent → sent = s.live.sent
  max_pos : s.writer = .passed ∨ s.writer = .stamped → 0 < max

theorem inv_init (max : Nat) : Inv max init :=
  ⟨Nat.le_refl 0, nofun, nofun, fun h => by rcases h with h | h <;> cases h⟩

/-- What the reader does to the counters: it counts at most one, of those it has seen. -/
theorem acked_readerStep (s : State) : (readerStep s).live.sent = s.live.sent ∧ (readerStep s).writer = s.writer ∧
    ((readerStep s).live.acked = s.live.acked ∨
      ∃ seen, s.reader = .loaded seen ∧ s.live.acked < seen ∧ (readerStep s).live.acked = s.live.acked + 1) := by
  unfold readerStep
  cases hr : s.reader with
  | idle => exact ⟨rfl, rfl, .inl rfl⟩
  | counted => exact ⟨rfl, rfl, .inl rfl⟩
  | loaded seen =>
    refine ⟨rfl, rfl, ?_⟩
    by_cases hlt : s.live.acked < seen
    · exact .inr ⟨seen, rfl, hlt, if_pos hlt⟩
    · exact .inl (if_neg hlt)

/-- What the writer does to the counters, by where it is. -/
theorem writerStep_cases {max : Nat} {now : Instant} {s s' : State} (h : writerStep max now s = some s') :
    s'.live.acked = s.live.acked ∧ s'.reader = s.reader ∧
    ((s.writer = .idle ∧ s'.writer = .loaded s.live.sent ∧ s'.live.sent = s.live.sent) ∨
      (∃ sent, s.writer = .loaded sent ∧ s'.live.sent = s.live.sent ∧
        ((max ≤ sent - s.live.acked ∧ s'.writer = .stopped) ∨ (sent - s.live.acked < max ∧ s'.writer = .passed))) ∨
      (s.writer = .passed ∧ s'.writer = .stamped ∧ s'.live.sent = s.live.sent) ∨
      (s.writer = .stamped ∧ s'.writer = .idle ∧ s'.live.sent = s.live.sent + 1)) := by
  unfold writerStep at h
  cases hw : s.writer with
  | idle =>
    rw [hw] at h
    cases h
    exact ⟨rfl, rfl, .inl ⟨rfl, rfl, rfl⟩⟩
  | loaded sent =>
    rw [hw] at h
    cases h
    refine ⟨rfl, rfl, .inr (.inl ⟨sent, rfl, rfl, ?_⟩)⟩
    by_cases hstop : sent - s.live.acked ≥ max
    · exact .inl ⟨hstop, if_pos hstop⟩
    · exact .inr ⟨Nat.not_le.mp hstop, if_neg hstop⟩
  | passed =>
    rw [hw] at h
    cases h
    exact ⟨rfl, rfl, .inr (.inr (.inl ⟨rfl, rfl, rfl⟩))⟩
  | stamped =>
    rw [hw] at h
    cases h
    exact ⟨rfl, rfl, .inr (.inr (.inr ⟨rfl, rfl, rfl⟩))⟩
  | stopped =>
    rw [hw] at h
    cases h

theorem reader_readerStep (s : State) (sent : Nat) (h : (readerStep s).reader = .loaded sent) : sent = s.live.sent := by
  unfold readerStep at h
  cases hr : s.reader with
  | idle =>
    rw [hr] at h
    cases h
    rfl
  | loaded seen =>
    rw [hr] at h
    cases h
  | counted =>
    rw [hr] at h
    cases h

theorem sent_le_writerStep {max : Nat} {now : Instant} {s s' : State} (h : writerStep max now s = some s') :
    s.live.sent ≤ s'.live.sent := by
  obtain ⟨-, -, hcases⟩ := writerStep_cases h
  rcases hcases with ⟨-, -, hsent⟩ | ⟨-, -, hsent, -⟩ | ⟨-, -, hsent⟩ | ⟨-, -, hsent⟩ <;> omega

/-- The writer loads what is there. -/
theorem loaded_writerStep {max : Nat} {now : Instant} {s s' : State} (h : writerStep max now s = some s') {sent : Nat}
    (hw : s'.writer = .loaded sent) : sent = s'.live.sent := by
  obtain ⟨-, -, hcases⟩ := writerStep_cases h
  rcases hcases with ⟨-, hw', hsent⟩ | ⟨-, -, -, ⟨-, hw'⟩ | ⟨-, hw'⟩⟩ | ⟨-, hw', -⟩ | ⟨-, hw', -⟩ <;> rw [hw'] at hw <;>
    cases hw
  exact hsent.symm

/-- The writer goes on after a decision, made on what it had loaded, or is on its way. -/
theorem goesOn_writerStep {max : Nat} {now : Instant} {s s' : State} (h : writerStep max now s = some s')
    (hw : s'.writer = .passed ∨ s'.writer = .stamped) : s'.live.sent = s.live.sent ∧
      ((∃ sent, s.writer = .loaded sent ∧ sent - s.live.acked < max) ∨ s.writer = .passed) := by
  obtain ⟨-, -, hcases⟩ := writerStep_cases h
  rcases hcases with ⟨-, hw', -⟩ | ⟨sent, hload, hsent, ⟨-, hw'⟩ | ⟨hlt, -⟩⟩ | ⟨hpassed, -, hsent⟩ | ⟨-, hw', -⟩
  · rw [hw'] at hw
    rcases hw with hw | hw <;> cases hw
  · rw [hw'] at hw
    rcases hw with hw | hw <;> cases hw
  · exact ⟨hsent, .inl ⟨sent, hload, hlt⟩⟩
  · exact ⟨hsent, .inr hpassed⟩
  · rw [hw'] at hw
    rcases hw with hw | hw <;> cases hw

theorem inv_step {max : Nat} {s s' : State} {l : Label} (hs : Inv max s) (h : step max s l = some s') : Inv max s' := by
  have hle := hs.acked_le
  cases l with
  | reader =>
    cases h
    obtain ⟨hsent, hwriter, hacked⟩ := acked_readerStep s
    refine ⟨?_, fun sent hr => ?_, fun sent hw => ?_, fun hw => ?_⟩
    · rcases hacked with hsame | ⟨seen, hr, hlt, hone⟩
      · omega
      · have hseen := hs.reader_le seen hr
        omega
    · rw [reader_readerStep s sent hr, hsent]
    · rw [hwriter] at hw
      rw [hs.writer_eq sent hw, hsent]
    · rw [hwriter] at hw
      exact hs.max_pos hw
  | writer now =>
    obtain ⟨hacked, hreader, -⟩ := writerStep_cases h
    have hmono := sent_le_writerStep h
    refine ⟨by omega, fun sent hr => ?_, fun sent hw => loaded_writerStep h hw, fun hw => ?_⟩
    · exact (hs.reader_le sent (hreader ▸ hr)).trans hmono
    · obtain ⟨-, ⟨sent, -, hlt⟩ | hpassed⟩ := goesOn_writerStep h hw
      · omega
      · exact hs.max_pos (.inl hpassed)

/-- A state that a session can be in. -/
def Reachable (max : Nat) (s : State) : Prop := ∃ ls, run (step max) init ls = some s

theorem Reachable.inv {max : Nat} {s : State} (h : Reachable max s) : Inv max s := by
  obtain ⟨ls, h⟩ := h
  exact run_inv inv_step (inv_init max) h

/-! ## One answer -/

/-- A message that came when `sent` keepalives were sent and `acked` were counted,
after `k` accesses of the reader. -/
def Answering (acked sent : Nat) (k : Nat) (s : State) : Prop :=
  (k = 0 ∧ s.reader = .loaded sent ∧ s.live.acked = acked) ∨
  (k = 1 ∧ s.reader = .counted ∧ s.live.acked ≤ acked + 1 ∧ s.live.acked ≤ sent) ∨
  (k = 2 ∧ s.reader = .idle ∧ s.live.acked ≤ acked + 1 ∧ s.live.acked ≤ sent)

theorem Answering.run {max acked sent : Nat} (hle : acked ≤ sent) {k : Nat} {s s' : State} {ls : List Label}
    (hs : Answering acked sent k s) (hk : k + ls.count .reader ≤ 2) (h : run (step max) s ls = some s') :
    s'.live.acked ≤ acked + 1 ∧ s'.live.acked ≤ sent := by
  induction ls generalizing k s with
  | nil =>
    cases h
    rcases hs with ⟨-, -, hs⟩ | ⟨-, -, hs⟩ | ⟨-, -, hs⟩ <;> omega
  | cons l ls ih =>
    obtain ⟨s₁, h₁, h₂⟩ := run_cons.mp h
    cases l with
    | writer now =>
      obtain ⟨hacked, hreader, -⟩ := writerStep_cases h₁
      refine ih (k := k) ?_ (by simpa using hk) h₂
      unfold Answering at hs ⊢
      rw [hacked, hreader]
      exact hs
    | reader =>
      cases h₁
      rw [List.count_cons_self] at hk
      refine ih (k := k + 1) ?_ (by omega) h₂
      obtain ⟨-, -, hcount⟩ := acked_readerStep s
      rcases hs with ⟨rfl, hr, hs⟩ | ⟨rfl, hr, hs⟩ | ⟨rfl, -⟩
      · refine .inr (.inl ⟨rfl, ?_, ?_⟩)
        · unfold readerStep
          rw [hr]
        · rcases hcount with hsame | ⟨seen, hseen, hlt, hone⟩
          · omega
          · rw [hr] at hseen
            cases hseen
            omega
      · refine .inr (.inr ⟨rfl, ?_, ?_⟩)
        · unfold readerStep
          rw [hr]
        · rcases hcount with hsame | ⟨seen, hseen, -⟩
          · omega
          · rw [hr] at hseen
            cases hseen
      · omega

/-! ## A session that is answered -/

/-- The keepalives outstanding after an access: one more when one has been sent, one
less when a message comes. -/
def outstanding (s : State) (n : Nat) : Label → Nat
  | .reader => if s.reader = .idle then n - 1 else n
  | .writer _ => if s.writer = .stamped then n + 1 else n

/-- The two tasks, and the keepalives outstanding. -/
def watch (max : Nat) (g : State × Nat) (l : Label) : Option (State × Nat) :=
  (step max g.1 l).map (·, outstanding g.1 g.2 l)

/-- At every tick, a message has come and has been counted for each keepalive sent. -/
def Answered (g : State × Nat) (l : Label) : Prop :=
  ∀ now, l = .writer now → g.1.writer = .idle → g.2 = 0 ∧ ∀ sent, g.1.reader ≠ .loaded sent

/-- What the reader is about to count. -/
def pending (acked : Nat) : ReaderAt → Nat
  | .loaded sent => if acked < sent then 1 else 0
  | _ => 0

/-- Every keepalive is counted as answered, about to be, or outstanding. -/
def Balanced (g : State × Nat) : Prop :=
  g.1.live.acked + pending g.1.live.acked g.1.reader + g.2 = g.1.live.sent

theorem balanced_readerStep {s : State} {n : Nat} (h : Balanced (s, n)) :
    Balanced (readerStep s, outstanding s n .reader) := by
  unfold Balanced at h ⊢
  unfold outstanding readerStep
  cases hr : s.reader with
  | idle =>
    rw [hr] at h
    -- a message counts if and only if something is outstanding
    simp only [pending, if_true] at h ⊢
    by_cases hlt : s.live.acked < s.live.sent
    · rw [if_pos hlt]
      omega
    · rw [if_neg hlt]
      omega
  | loaded sent =>
    rw [hr] at h
    simp only [pending, reduceCtorEq, if_false] at h ⊢
    by_cases hlt : s.live.acked < sent
    · rw [if_pos hlt] at h ⊢
      omega
    · rw [if_neg hlt] at h ⊢
      omega
  | counted =>
    rw [hr] at h
    exact h

theorem balanced_writerStep {max : Nat} {now : Instant} {s s' : State} {n : Nat} (h : Balanced (s, n))
    (hstep : writerStep max now s = some s') : Balanced (s', outstanding s n (.writer now)) := by
  obtain ⟨hacked, hreader, hcases⟩ := writerStep_cases hstep
  unfold Balanced at h ⊢
  unfold outstanding
  simp only [hacked, hreader] at h ⊢
  rcases hcases with ⟨hw, -, hsent⟩ | ⟨sent, hw, hsent, -⟩ | ⟨hw, -, hsent⟩ | ⟨hw, -, hsent⟩
  · rw [hw, hsent, if_neg (by simp), h]
  · rw [hw, hsent, if_neg (by simp), h]
  · rw [hw, hsent, if_neg (by simp), h]
  · rw [hw, hsent, if_pos rfl, ← h]
    rfl

/-- What the writer has loaded is answered. -/
def Fresh (s : State) : Prop :=
  s.writer ≠ .stopped ∧ ∀ sent, s.writer = .loaded sent → sent ≤ s.live.acked

theorem fresh_readerStep {s : State} (h : Fresh s) : Fresh (readerStep s) := by
  obtain ⟨-, hwriter, hcount⟩ := acked_readerStep s
  unfold Fresh
  rw [hwriter]
  refine ⟨h.1, fun sent hw => ?_⟩
  have hle := h.2 sent hw
  rcases hcount with hsame | ⟨-, -, -, hone⟩ <;> omega

theorem fresh_writerStep {max : Nat} (hmax : max ≠ 0) {now : Instant} {s s' : State} (h : Fresh s)
    (hidle : s.writer = .idle → s.live.sent ≤ s.live.acked) (hstep : writerStep max now s = some s') : Fresh s' := by
  obtain ⟨hacked, -, hcases⟩ := writerStep_cases hstep
  unfold Fresh
  rcases hcases with ⟨hw, hw', -⟩ | ⟨n, hw, -, hcase⟩ | ⟨-, hw', -⟩ | ⟨-, hw', -⟩
  · rw [hw', hacked]
    refine ⟨nofun, fun sent heq => ?_⟩
    cases heq
    exact hidle hw
  · have hle := h.2 n hw
    rcases hcase with ⟨hge, -⟩ | ⟨-, hw'⟩
    · omega
    · rw [hw']
      exact ⟨nofun, nofun⟩
  · rw [hw']
    exact ⟨nofun, nofun⟩
  · rw [hw']
    exact ⟨nofun, nofun⟩

theorem fresh_watch {max : Nat} (hmax : max ≠ 0) {g g' : State × Nat} {l : Label} (hC : Answered g l)
    (hg : Balanced g ∧ Fresh g.1) (h : watch max g l = some g') : Balanced g' ∧ Fresh g'.1 := by
  obtain ⟨s', hstep, rfl⟩ := Option.map_eq_some_iff.mp h
  obtain ⟨hbalanced, hfresh⟩ := hg
  cases l with
  | reader =>
    cases hstep
    exact ⟨balanced_readerStep hbalanced, fresh_readerStep hfresh⟩
  | writer now =>
    refine ⟨balanced_writerStep hbalanced hstep, fresh_writerStep hmax hfresh (fun hidle => ?_) hstep⟩
    obtain ⟨hnone, hnot⟩ := hC now rfl hidle
    unfold Balanced at hbalanced
    have hpending : pending g.1.live.acked g.1.reader = 0 := by
      cases hr : g.1.reader with
      | loaded sent => exact absurd hr (hnot sent)
      | _ => rfl
    omega

/-! ## A session without answers -/

/-- No further message comes. -/
def Silent (s : State) (l : Label) : Prop := l = .reader → s.reader ≠ .idle

/-- The accesses the writer has made in this tick. -/
def WriterAt.stage : WriterAt → Nat
  | .idle => 0
  | .loaded _ => 1
  | .passed => 2
  | .stamped => 3
  | .stopped => 0

/-- The accesses of the writer since the session began. -/
def weight (s : State) : Nat := 4 * s.live.sent + s.writer.stage

/-- What is left of the answers, and of the keepalives, once the last message has come
and `sent` keepalives were sent. -/
structure Draining (max sent : Nat) (s : State) : Prop where
  inv : Inv max s
  acked_le : s.live.acked ≤ sent
  reader_le : ∀ seen, s.reader = .loaded seen → seen ≤ sent
  sent_le : s.live.sent ≤ sent + max
  writer_lt : s.writer = .passed ∨ s.writer = .stamped → s.live.sent < sent + max

theorem Reachable.draining {max : Nat} {s : State} (h : Reachable max s) : Draining max s.live.sent s :=
  ⟨h.inv, h.inv.acked_le, h.inv.reader_le, Nat.le_add_right _ _, fun hw => by
    have hpos := h.inv.max_pos hw
    omega⟩

theorem draining_step {max sent : Nat} {s s' : State} {l : Label} (hC : Silent s l) (hs : Draining max sent s)
    (h : step max s l = some s') : Draining max sent s' := by
  have hinv := inv_step hs.inv h
  cases l with
  | reader =>
    cases h
    obtain ⟨hsent, hwriter, hcount⟩ := acked_readerStep s
    refine ⟨hinv, ?_, fun seen hr => ?_, by rw [hsent]; exact hs.sent_le, fun hw => ?_⟩
    · have hle := hs.acked_le
      rcases hcount with hsame | ⟨seen, hr, hlt, hone⟩
      · omega
      · have hseen := hs.reader_le seen hr
        omega
    · -- the reader only loads when a message comes
      exfalso
      refine hC rfl ?_
      unfold readerStep at hr
      cases hreader : s.reader with
      | idle => rfl
      | loaded sent =>
        rw [hreader] at hr
        cases hr
      | counted =>
        rw [hreader] at hr
        cases hr
    · rw [hwriter] at hw
      rw [hsent]
      exact hs.writer_lt hw
  | writer now =>
    obtain ⟨hacked, hreader, hcases⟩ := writerStep_cases h
    have hle := hs.sent_le
    refine ⟨hinv, by rw [hacked]; exact hs.acked_le, fun seen hr => hs.reader_le seen (hreader ▸ hr), ?_, fun hw => ?_⟩
    · rcases hcases with ⟨-, -, hsent⟩ | ⟨-, -, hsent, -⟩ | ⟨-, -, hsent⟩ | ⟨hw, -, hsent⟩
      · omega
      · omega
      · omega
      · have hlt := hs.writer_lt (.inr hw)
        omega
    · obtain ⟨hsent, ⟨seen, hload, hlt⟩ | hpassed⟩ := goesOn_writerStep h hw
      · -- the decision was made on an answered count of at most `sent`
        have heq := hs.inv.writer_eq seen hload
        have hacked' := hs.acked_le
        omega
      · rw [hsent]
        exact hs.writer_lt (.inl hpassed)

/-- An access of the writer that does not stop it adds one to the weight. -/
theorem weight_writerStep {max : Nat} {now : Instant} {s s' : State} (h : writerStep max now s = some s')
    (hnot : s'.writer ≠ .stopped) : weight s' = weight s + 1 := by
  obtain ⟨-, -, hcases⟩ := writerStep_cases h
  unfold weight
  rcases hcases with ⟨hw, hw', hsent⟩ | ⟨n, hw, hsent, hcase⟩ | ⟨hw, hw', hsent⟩ | ⟨hw, hw', hsent⟩
  · rw [hw, hw', hsent]
    rfl
  · rcases hcase with ⟨-, hw'⟩ | ⟨-, hw'⟩
    · exact absurd hw' hnot
    · rw [hw, hw', hsent]
      rfl
  · rw [hw, hw', hsent]
    rfl
  · rw [hw, hw', hsent]
    rfl

theorem weight_readerStep (s : State) : weight (readerStep s) = weight s := by
  obtain ⟨hsent, hwriter, -⟩ := acked_readerStep s
  unfold weight
  rw [hsent, hwriter]

def Label.isWriter : Label → Bool
  | .reader => false
  | .writer _ => true

/-- Every access of the writer counts, until it stops. -/
theorem weight_run {max : Nat} {s s' : State} {ls : List Label} (h : run (step max) s ls = some s')
    (hnot : s'.writer ≠ .stopped) : weight s' = weight s + ls.countP Label.isWriter ∧ s.writer ≠ .stopped := by
  induction ls generalizing s with
  | nil =>
    cases h
    exact ⟨rfl, hnot⟩
  | cons l ls ih =>
    obtain ⟨s₁, h₁, h₂⟩ := run_cons.mp h
    obtain ⟨hweight, hnot₁⟩ := ih h₂
    cases l with
    | reader =>
      cases h₁
      rw [hweight, weight_readerStep, List.countP_cons_of_neg (by simp [Label.isWriter])]
      exact ⟨rfl, (acked_readerStep s).2.1 ▸ hnot₁⟩
    | writer now =>
      rw [hweight, weight_writerStep h₁ hnot₁, List.countP_cons_of_pos (by rfl)]
      refine ⟨by omega, fun hstopped => ?_⟩
      change writerStep max now s = some s₁ at h₁
      unfold writerStep at h₁
      rw [hstopped] at h₁
      cases h₁

/-! ## The accounting -/

/-- What the accounting is for. -/
structure Exact (max : Nat) : Prop where
  /-- No more are counted as answered than were sent. -/
  acked_le : ∀ s, Reachable max s → s.live.acked ≤ s.live.sent
  /-- A message that comes in `s` counts for at most one keepalive, sent before it. -/
  one : ∀ s, Reachable max s → s.reader = .idle → ∀ ls s', ls.count .reader ≤ 2 →
    run (step max) s (.reader :: ls) = some s' →
    s'.live.acked ≤ s.live.acked + 1 ∧ s'.live.acked ≤ s.live.sent
  /-- A session that is answered is not discarded. -/
  answered : ∀ ls g, Along (watch max) Answered (init, 0) ls → run (watch max) (init, 0) ls = some g →
    g.1.writer ≠ .stopped
  /-- Without messages, at most `max` more are sent, and the writer, which can go on
  until then, is stopped. -/
  silent : ∀ s, Reachable max s → ∀ ls s', Along (step max) Silent s ls → run (step max) s ls = some s' →
    s'.live.sent ≤ s.live.sent + max ∧
    (s'.writer = .stopped ∨ ls.countP Label.isWriter ≤ 4 * max + 3 ∧ ∀ now, (step max s' (.writer now)).isSome)

theorem silent_run {max : Nat} {s s' : State} (hs : Reachable max s) {ls : List Label}
    (hC : Along (step max) Silent s ls) (h : run (step max) s ls = some s') :
    s'.live.sent ≤ s.live.sent + max ∧
    (s'.writer = .stopped ∨ ls.countP Label.isWriter ≤ 4 * max + 3 ∧ ∀ now, (step max s' (.writer now)).isSome) := by
  have hdrain : Draining max s.live.sent s' := run_inv_along draining_step hC hs.draining h
  refine ⟨hdrain.sent_le, ?_⟩
  by_cases hstopped : s'.writer = .stopped
  · exact .inl hstopped
  · obtain ⟨hweight, -⟩ := weight_run h hstopped
    have hsent := hdrain.sent_le
    have hstart : 4 * s.live.sent ≤ weight s := Nat.le_add_right _ _
    refine .inr ⟨?_, fun now => ?_⟩
    · have hend : weight s' ≤ 4 * s'.live.sent + 3 := by
        unfold weight
        cases s'.writer <;> simp [WriterAt.stage]
      omega
    · change (writerStep max now s').isSome = true
      unfold writerStep
      cases hw : s'.writer with
      | stopped => exact absurd hw hstopped
      | _ => rfl

/-- With nothing tolerated, the first tick stops the writer. -/
theorem answered_zero : Along (watch 0) Answered (init, 0) [.writer 0, .writer 0] ∧
    run (watch 0) (init, 0) [.writer 0, .writer 0] = some (⟨.new, .idle, .stopped⟩, 0) := by
  refine ⟨⟨fun _ _ _ => ⟨rfl, nofun⟩, fun g₁ h₁ => ?_⟩, rfl⟩
  cases h₁
  exact ⟨fun _ _ hw => (by cases hw), fun _ _ => trivial⟩

/-! ## Counters of 64 bits -/

/-- The counters as the source has them. -/
def wrap (s : State) : State :=
  { s with live := { s.live with sent := s.live.sent % UInt64.size, acked := s.live.acked % UInt64.size } }

def wrappingStep (max : Nat) (s : State) (l : Label) : Option State := (step max s l).map wrap

theorem sent_le_step {max : Nat} {s s' : State} {l : Label} (h : step max s l = some s') :
    s.live.sent ≤ s'.live.sent := by
  cases l with
  | reader =>
    cases h
    exact (acked_readerStep s).1.ge
  | writer now => exact sent_le_writerStep h

/-- As long as fewer than `2 ^ 64` keepalives are sent, no counter wraps. -/
theorem run_wrappingStep {max : Nat} {s s' : State} {ls : List Label} (hs : Inv max s)
    (h : run (step max) s ls = some s') (hfew : s'.live.sent < UInt64.size) :
    run (wrappingStep max) s ls = some s' := by
  induction ls generalizing s with
  | nil => exact h
  | cons l ls ih =>
    obtain ⟨s₁, h₁, h₂⟩ := run_cons.mp h
    have hinv : Inv max s₁ := inv_step hs h₁
    have hle : s₁.live.sent ≤ s'.live.sent :=
      run_inv (P := fun t => s₁.live.sent ≤ t.live.sent) (fun ht hstep => ht.trans (sent_le_step hstep)) le_rfl h₂
    have hacked := hinv.acked_le
    have hwrap : wrap s₁ = s₁ := by
      unfold wrap
      rw [Nat.mod_eq_of_lt (by omega), Nat.mod_eq_of_lt (by omega)]
    exact run_cons.mpr ⟨s₁, by rw [wrappingStep, h₁, Option.map_some, hwrap], ih hinv h₂⟩

/-- The accounting is exact if and only if something is tolerated. The counters are
those of the source as long as fewer than `2 ^ 64` keepalives are sent
(`run_wrappingStep`). -/
theorem exact_iff (max : Nat) : Exact max ↔ max ≠ 0 := by
  constructor
  · rintro hexact rfl
    exact hexact.answered _ _ answered_zero.1 answered_zero.2 rfl
  · intro hmax
    refine ⟨fun s hs => hs.inv.acked_le, ?_, ?_, fun s hs ls s' hC h => silent_run hs hC h⟩
    · intro s hs hidle ls s' hcount h
      obtain ⟨s₁, h₁, h₂⟩ := run_cons.mp h
      cases h₁
      have hloaded : Answering s.live.acked s.live.sent 0 (readerStep s) := by
        unfold readerStep
        rw [hidle]
        exact .inl ⟨rfl, rfl, rfl⟩
      exact hloaded.run hs.inv.acked_le (by omega) h₂
    · intro ls g hC h
      have hfresh : Balanced (init, 0) ∧ Fresh init := ⟨rfl, nofun, nofun⟩
      exact (run_inv_along (fun hc hp hstep => fresh_watch hmax hc hp hstep) hC hfresh h).2.1

/-- A session of which every keepalive was answered, there being none, is discarded. -/
theorem idle_session_discarded : ∃ ls g, Along (watch 0) Answered (init, 0) ls ∧
    run (watch 0) (init, 0) ls = some g ∧ g.1.live.sent = 0 ∧ g.1.writer = .stopped :=
  ⟨_, _, answered_zero.1, answered_zero.2, rfl, rfl⟩

/-! ## The round trip -/

/-- A call of `record_sent` or of `record_ack`. -/
inductive Op
  | sent (now : Instant)
  | ack
  deriving DecidableEq

/-- What the calls of `record_ack` return. -/
def returned : Liveness → List Op → List (Option Instant)
  | _, [] => []
  | l, .sent now :: ops => returned (l.recordSent now) ops
  | l, .ack :: ops => l.recordAck.1 :: returned l.recordAck.2 ops

/-- The instants at which the keepalives were sent. -/
def instants (ops : List Op) : List Instant :=
  ops.filterMap fun
    | .sent now => some now
    | .ack => none

/-- Every answer is for a keepalive that was sent. -/
def Solicited (ops : List Op) : Prop :=
  ∀ p, p <+: ops → p.count .ack ≤ (instants p).length

/-- The `k`-th answer returns when the `k`-th keepalive was sent. -/
def Paired (ops : List Op) : Prop :=
  ∀ k < ops.count .ack, (returned .new ops)[k]? = some (instants ops)[k]?

/-- Every answer comes right after a keepalive that was sent at the instant of the one
it answers. -/
def Prompt (ops : List Op) : Prop :=
  ∀ p, p ++ [.ack] <+: ops → ∃ now, p.getLast? = some (.sent now) ∧ (instants p)[p.count .ack]? = some now

/-- Every answer comes while one keepalive is outstanding. -/
def OneOutstanding (ops : List Op) : Prop :=
  ∀ p, p ++ [.ack] <+: ops → (instants p).length = p.count .ack + 1

@[simp] theorem instants_sent (ops : List Op) (now : Instant) :
    instants (ops ++ [.sent now]) = instants ops ++ [now] := by
  simp [instants]

@[simp] theorem instants_ack (ops : List Op) : instants (ops ++ [.ack]) = instants ops := by
  simp [instants]

@[simp] theorem count_sent (ops : List Op) (now : Instant) : (ops ++ [Op.sent now]).count .ack = ops.count .ack := by
  simp

@[simp] theorem count_ack (ops : List Op) : (ops ++ [Op.ack]).count .ack = ops.count .ack + 1 := by
  simp

/-- The instant that is kept after the calls `ops`. -/
def kept : Option Instant → List Op → Option Instant
  | at?, [] => at?
  | _, .sent now :: ops => kept (some now) ops
  | _, .ack :: ops => kept none ops

theorem kept_append (at? : Option Instant) (ops : List Op) (op : Op) :
    kept at? (ops ++ [op]) = kept none [op] := by
  induction ops generalizing at? with
  | nil => cases op <;> rfl
  | cons o ops ih => cases o <;> exact ih _

theorem returned_append (l : Liveness) (ops ops' : List Op) :
    ∃ l', l'.sentAt = kept l.sentAt ops ∧ returned l (ops ++ ops') = returned l ops ++ returned l' ops' := by
  induction ops generalizing l with
  | nil => exact ⟨l, rfl, rfl⟩
  | cons o ops ih =>
    cases o with
    | sent now => exact ih (l.recordSent now)
    | ack =>
      obtain ⟨l', hkept, h⟩ := ih l.recordAck.2
      refine ⟨l', hkept, ?_⟩
      show l.recordAck.1 :: returned l.recordAck.2 (ops ++ ops') = _
      rw [h]
      rfl

theorem returned_sent (l : Liveness) (ops : List Op) (now : Instant) :
    returned l (ops ++ [.sent now]) = returned l ops := by
  obtain ⟨l', -, h⟩ := returned_append l ops [.sent now]
  rw [h]
  exact List.append_nil _

theorem returned_ack (l : Liveness) (ops : List Op) :
    returned l (ops ++ [.ack]) = returned l ops ++ [kept l.sentAt ops] := by
  obtain ⟨l', hkept, h⟩ := returned_append l ops [.ack]
  rw [h, ← hkept]
  rfl

theorem length_returned (l : Liveness) (ops : List Op) : (returned l ops).length = ops.count .ack := by
  induction ops generalizing l with
  | nil => rfl
  | cons o ops ih =>
    cases o with
    | sent now =>
      show (returned (l.recordSent now) ops).length = _
      rw [ih, List.count_cons_of_ne (show Op.sent now ≠ .ack from nofun)]
    | ack =>
      show (returned l.recordAck.2 ops).length + 1 = _
      rw [ih, List.count_cons_self]

/-- What is kept is the instant of the last call, if it sent a keepalive. -/
theorem kept_eq_some {ops : List Op} {now : Instant} :
    kept none ops = some now ↔ ops.getLast? = some (.sent now) := by
  rcases List.eq_nil_or_concat ops with rfl | ⟨ops, op, rfl⟩
  · exact ⟨nofun, nofun⟩
  · rw [List.concat_eq_append, kept_append, List.getLast?_concat]
    cases op <;> simp [kept]

theorem Solicited.of_prefix {ops ops' : List Op} (h : Solicited ops') (hp : ops <+: ops') : Solicited ops :=
  fun p hp' => h p (hp'.trans hp)

theorem paired_sent {ops : List Op} (h : Solicited ops) (now : Instant) :
    Paired (ops ++ [.sent now]) ↔ Paired ops := by
  have hle := h ops (List.prefix_refl ops)
  unfold Paired
  rw [count_sent, returned_sent, instants_sent]
  refine forall₂_congr fun k hk => ?_
  rw [List.getElem?_append_left (by omega)]

theorem paired_ack (ops : List Op) :
    Paired (ops ++ [.ack]) ↔ Paired ops ∧ kept none ops = (instants ops)[ops.count .ack]? := by
  have hlen := length_returned .new ops
  unfold Paired
  rw [count_ack, returned_ack, instants_ack]
  constructor
  · intro h
    refine ⟨fun k hk => ?_, ?_⟩
    · have hk' := h k (by omega)
      rwa [List.getElem?_append_left (by omega)] at hk'
    · have hlast := h (ops.count .ack) (by omega)
      rw [← hlen, List.getElem?_concat_length, hlen] at hlast
      exact Option.some.inj hlast
  · rintro ⟨h, hkept⟩ k hk
    by_cases hlast : k = ops.count .ack
    · subst hlast
      rw [← hlen, List.getElem?_concat_length, hlen, ← hkept]
      rfl
    · rw [List.getElem?_append_left (by omega)]
      exact h k (by omega)

/-- A condition on every answer of a run, call by call. -/
theorem forall_ack_concat {P : List Op → Prop} {ops : List Op} {op : Op} :
    (∀ p, p ++ [.ack] <+: ops ++ [op] → P p) ↔ (∀ p, p ++ [.ack] <+: ops → P p) ∧ (op = .ack → P ops) := by
  constructor
  · intro h
    refine ⟨fun p hp => h p (hp.trans (List.prefix_append _ _)), ?_⟩
    rintro rfl
    exact h ops (List.prefix_refl _)
  · rintro ⟨h, hop⟩ p hp
    rcases List.prefix_concat_iff.mp hp with heq | hp
    · obtain ⟨rfl, hack⟩ := List.append_inj' heq rfl
      exact hop (List.cons.inj hack).1.symm
    · exact h p hp

theorem paired_iff_prompt {ops : List Op} (h : Solicited ops) : Paired ops ↔ Prompt ops := by
  induction ops using List.reverseRecOn with
  | nil => exact iff_of_true (fun k hk => absurd hk (Nat.not_lt_zero k)) fun p hp => by simp at hp
  | append_singleton ops op ih =>
    have hops := h.of_prefix (List.prefix_append ops [op])
    unfold Prompt
    rw [forall_ack_concat]
    cases op with
    | sent now =>
      rw [paired_sent hops, ih hops]
      exact ⟨fun hp => ⟨hp, nofun⟩, fun hp => hp.1⟩
    | ack =>
      rw [paired_ack, ih hops]
      refine and_congr_right fun _ => ?_
      -- the answer is for a keepalive that was sent, so there is one to compare with
      have hle := h _ (List.prefix_refl _)
      rw [count_ack, instants_ack] at hle
      obtain ⟨now, hnow⟩ : ∃ now, (instants ops)[ops.count .ack]? = some now :=
        ⟨_, List.getElem?_eq_getElem (by omega)⟩
      rw [hnow, kept_eq_some]
      refine ⟨fun hlast _ => ⟨now, hlast, rfl⟩, fun hp => ?_⟩
      obtain ⟨now', hlast, heq⟩ := hp rfl
      cases heq
      exact hlast

theorem OneOutstanding.prompt {ops : List Op} (h : OneOutstanding ops) : Prompt ops := by
  intro p hp
  have hone := h p hp
  rcases List.eq_nil_or_concat p with rfl | ⟨q, op, rfl⟩
  · cases hone
  · rw [List.concat_eq_append] at hp hone ⊢
    cases op with
    | sent now =>
      rw [instants_sent, List.length_append, List.length_singleton, count_sent] at hone
      refine ⟨now, List.getLast?_concat, ?_⟩
      rw [instants_sent, count_sent, ← Nat.succ_inj.mp hone, List.getElem?_concat_length]
    | ack =>
      -- two answers in a row: the first left none outstanding
      have hbefore := h q ((List.prefix_append _ _).trans hp)
      rw [instants_ack, count_ack] at hone
      omega

theorem instants_mono {p ops : List Op} (h : p <+: ops) : instants p <+: instants ops := by
  obtain ⟨t, rfl⟩ := h
  unfold instants
  rw [List.filterMap_append]
  exact List.prefix_append _ _

theorem Prompt.oneOutstanding {ops : List Op} (h : Prompt ops) (hnodup : (instants ops).Nodup) :
    OneOutstanding ops := by
  intro p hp
  obtain ⟨now, hlast, hget⟩ := h p hp
  have hp' := (List.prefix_append p [.ack]).trans hp
  have hnodup' : (instants p).Nodup := hnodup.sublist (instants_mono hp').sublist
  obtain ⟨q, rfl⟩ := List.getLast?_eq_some_iff.mp hlast
  rw [instants_sent] at hget hnodup' ⊢
  have hlen : (instants q ++ [now])[(instants q).length]? = some now := List.getElem?_concat_length
  obtain ⟨hlt, -⟩ := List.getElem?_eq_some_iff.mp hget
  have heq := (List.getElem?_inj hlt hnodup').mp (hget.trans hlen.symm)
  rw [heq, List.length_append, List.length_singleton]

/-- In a run without unsolicited answers, the `k`-th answer returns the instant of the
`k`-th keepalive if and only if each answer comes right after its keepalive; it does if
there is never more than one outstanding, and only then unless two were sent at one
instant. -/
theorem recordAck_returns_iff (ops : List Op) (h : Solicited ops) :
    (Paired ops ↔ Prompt ops) ∧ (OneOutstanding ops → Paired ops) ∧
      ((instants ops).Nodup → Paired ops → OneOutstanding ops) :=
  ⟨paired_iff_prompt h, fun hone => (paired_iff_prompt h).mpr hone.prompt,
    fun hnodup hpaired => ((paired_iff_prompt h).mp hpaired).oneOutstanding hnodup⟩

theorem recordAck_returns_iff_two :
    Solicited [.sent 1, .ack, .sent 5, .ack] ∧ Paired [.sent 1, .ack, .sent 5, .ack] := by
  have h : Solicited [.sent 1, .ack, .sent 5, .ack] := by
    unfold Solicited
    simp only [← List.mem_inits]
    decide
  have hone : ∀ p ∈ [Op.sent 1, .ack, .sent 5, .ack].inits, p ++ [.ack] <+: [.sent 1, .ack, .sent 5, .ack] →
      (instants p).length = p.count .ack + 1 := by decide
  refine ⟨h, (recordAck_returns_iff _ h).2.1 fun p hp => hone p ?_ hp⟩
  exact (List.mem_inits _ _).mpr ((List.prefix_append _ _).trans hp)

/-- With two outstanding, the first answer returns when the second was sent, and the
second returns nothing. -/
theorem second_keepalive_returned :
    Solicited [.sent 1, .sent 5, .ack, .ack] ∧ returned .new [.sent 1, .sent 5, .ack, .ack] = [some 5, none] ∧
      ¬ Paired [.sent 1, .sent 5, .ack, .ack] := by
  refine ⟨?_, rfl, fun h => ?_⟩
  · unfold Solicited
    simp only [← List.mem_inits]
    decide
  · have hfirst := h 0 (by decide)
    revert hfirst
    decide

end Keepalive

end Lox
