import LoxWebsocket.Client.Clocked
import LoxWebsocket.Client.Framing

/-!
# How long the reader waits

`Reader.runTimed` is the reader with its timeout: each event comes with how long
the read has waited for it. The reader does with the events up to the first that is
late (`onTime`) what `Reader.run` does with them, and then ends (`runTimed_eq`).

The window of a frame depends on the length that was announced for it. So a
Miniserver that pauses for no longer than the idle timeout, and then sends
`minPayloadThroughputBytesPerSec`, is heard to the end, up to the longest extension
(`paced_messages_heard`).
-/

namespace Lox

/-- What the reader expects after an event. -/
def FrameExpect.after (expect : FrameExpect) : ReadEvent → FrameExpect
  | .frame .text data | .frame .binary data => expect.next data
  | _ => expect

/-- An event, with the time that the read has waited for it. -/
structure TimedRead where
  wait : Nat
  shared : ReaderShared
  event : ReadEvent

def TimedRead.seen (a : TimedRead) : ReaderShared × ReadEvent := (a.shared, a.event)

namespace Timing

variable (T : Timing)

/-- The events that come in time, from a read for `expect` on. -/
def onTime : FrameExpect → List TimedRead → List TimedRead
  | _, [] => []
  | expect, a :: rest =>
    if a.wait ≤ T.readTimeout expect.announcedLen then a :: onTime (expect.after a.event) rest else []

/-- A wait for `n` bytes, at the throughput that is assumed. -/
def Pace (n wait : Nat) : Prop :=
  wait * minPayloadThroughputBytesPerSec ≤ T.idleTimeout * minPayloadThroughputBytesPerSec +
    min n (maxPayloadExtensionSecs * minPayloadThroughputBytesPerSec) * T.second

/-- All waits are such. -/
def Paced : FrameExpect → List TimedRead → Prop
  | _, [] => True
  | expect, a :: rest => T.Pace expect.announcedLen.toNat a.wait ∧ Paced (expect.after a.event) rest

variable {T}

theorem Pace.le {announcedLen : UInt32} {wait : Nat} (h : T.Pace announcedLen.toNat wait) :
    wait ≤ T.readTimeout announcedLen := by
  have hpos : 0 < minPayloadThroughputBytesPerSec := by decide
  refine Nat.le_of_mul_le_mul_right (Nat.le_trans h ?_) hpos
  unfold readTimeout
  split
  · rename_i hzero
    rw [hzero]
    exact Nat.le_of_eq (by rw [UInt32.toNat_zero, Nat.zero_min, Nat.zero_mul, Nat.add_zero])
  · -- the seconds are rounded up
    have hceil : announcedLen.toNat ≤ (announcedLen.toNat + minPayloadThroughputBytesPerSec - 1) /
        minPayloadThroughputBytesPerSec * minPayloadThroughputBytesPerSec := by
      unfold minPayloadThroughputBytesPerSec
      omega
    generalize (announcedLen.toNat + minPayloadThroughputBytesPerSec - 1) / minPayloadThroughputBytesPerSec = c at hceil
    have hmin : min announcedLen.toNat (maxPayloadExtensionSecs * minPayloadThroughputBytesPerSec) ≤
        min c maxPayloadExtensionSecs * minPayloadThroughputBytesPerSec := by
      rw [← Nat.mul_min_mul_right]
      exact Nat.le_min.mpr ⟨Nat.le_trans (Nat.min_le_left _ _) hceil, Nat.min_le_right _ _⟩
    rw [Nat.add_mul, Nat.mul_right_comm]
    exact Nat.add_le_add_left (Nat.mul_le_mul_right _ hmin) _

/-- What comes at the pace comes in time. -/
theorem Paced.onTime_append {expect : FrameExpect} {arrivals : List TimedRead} (h : T.Paced expect arrivals)
    (rest : List TimedRead) : T.onTime expect (arrivals ++ rest) =
      arrivals ++ T.onTime ((arrivals.map TimedRead.event).foldl FrameExpect.after expect) rest := by
  induction arrivals generalizing expect with
  | nil => rfl
  | cons a arrivals ih =>
    rw [List.cons_append, Timing.onTime, if_pos h.1.le, ih h.2]
    rfl

end Timing

/-! ## The reader with its timeout -/

namespace Reader

variable {C : Crates} {η : Type} [LoxHandler η] (keys : SessionKeys C) (P : Parsers) (T : Timing)

/-- Read until the session ends, or an event is late. -/
def runTimed : List TimedRead → ReaderState η → ReadOutcome × ReaderState η
  | [], s => (.idleTimeout, s)
  | a :: rest, s =>
    if a.wait ≤ T.readTimeout s.expect.announcedLen then
      let s := { s with shared := a.shared }
      match a.event with
      | .elapsed => (.idleTimeout, s)
      | .failed e => (.failed (.webSocket e), s)
      | .frame opcode payload =>
        match opcode with
        | .close => (.closed (parseCloseCode payload), s)
        | .text | .binary =>
          match onDataFrame keys P payload s with
          | (.ok none, s) => runTimed rest s
          | (.ok (some outcome), s) => (outcome, s)
          | (.error e, s) => (.failed e, s)
        | .ping | .pong | .continuation => runTimed rest s
    else (.idleTimeout, s)

theorem onDataFrame_endsService {frame : Bytes} {s : ReaderState η} (h : s.expect.endsService frame = true) :
    onDataFrame keys P frame s = (.ok (some (.closed (some 1012))), s) := by
  obtain ⟨expect, handler, shared, out, delivered⟩ := s
  cases expect with
  | payload msgType len => cases h
  | header announced =>
    change onHeader keys P frame _ = _
    simp only [FrameExpect.endsService] at h
    simp only [onHeader]
    cases hheader : parseHeader frame with
    | error e =>
      rw [hheader] at h
      cases h
    | ok parsed =>
      cases parsed with
      | none =>
        rw [hheader] at h
        cases h
      | some hdr =>
        simp only [hheader, Bool.and_eq_true, Bool.not_eq_true', decide_eq_true_eq] at h
        simp only [h.1, h.2, Bool.false_eq_true, if_false, if_true]
        rfl

variable {keys P}

/-- A frame after which the reader goes on leaves it expecting the next. -/
theorem expect_of_onDataFrame {frame : Bytes} {s s' : ReaderState η}
    (h : onDataFrame keys P frame s = (.ok none, s')) : s'.expect = s.expect.next frame := by
  cases hends : s.expect.endsService frame with
  | true =>
    rw [onDataFrame_endsService keys P hends] at h
    cases h
  | false =>
    rw [onDataFrame_eq keys P frame s hends, Prog.bind_apply] at h
    split at h
    · cases h
      rfl
    · cases h

variable (keys P)

/-- Up to the first event that is late the timeout has no part. -/
theorem runTimed_eq (arrivals : List TimedRead) (s : ReaderState η) :
    runTimed keys P T arrivals s = run keys P ((T.onTime s.expect arrivals).map TimedRead.seen) s := by
  induction arrivals generalizing s with
  | nil => rfl
  | cons a rest ih =>
    obtain ⟨wait, shared, event⟩ := a
    rw [runTimed, Timing.onTime]
    split
    · rw [List.map_cons]
      cases event with
      | elapsed => rfl
      | failed e => rfl
      | frame opcode payload =>
        cases opcode with
        | close => rfl
        | text | binary =>
          simp only [TimedRead.seen, run]
          cases hframe : onDataFrame keys P payload { s with shared } with
          | mk r s' =>
            cases r with
            | error e => rfl
            | ok o =>
              cases o with
              | some outcome => rfl
              | none =>
                dsimp only
                rw [ih, expect_of_onDataFrame hframe]
                rfl
        | ping | pong | continuation =>
          simp only [TimedRead.seen, run]
          rw [ih]
          rfl
    · rfl

end Reader

variable {η : Type} [LoxHandler η]

/-- A Miniserver that keeps the pace is heard: the reader gives the handler all of its
messages, in order and once each. Then the idle timeout ends it, when the next event
is late or there is none. -/
theorem paced_messages_heard (hq : LoxHandler.Quiet η) {C : Crates} (keys : SessionKeys C) (P : Parsers) {T : Timing}
    {ms : List Msg} (arrivals : List TimedRead) (hstream : Stream ms (arrivals.map TimedRead.event)) {s : ReaderState η}
    (hstart : s.expect = .start) (hpaced : T.Paced s.expect arrivals) (hg : s.handler.panicked = false)
    (late : List TimedRead)
    (hlate : T.onTime ((arrivals.map TimedRead.event).foldl FrameExpect.after s.expect) late = []) :
    (Reader.runTimed keys P T (arrivals ++ late) s).1 = .idleTimeout ∧
      Saw ms s.handler (Reader.runTimed keys P T (arrivals ++ late) s).2.handler := by
  rw [Reader.runTimed_eq, hpaced.onTime_append late, hlate, List.append_nil]
  exact Reader.run_saw keys P hq hstream (by rw [List.map_map]; rfl) ⟨0, hstart⟩ hg

/-- The sample stream, on a clock on which a byte takes one tick. -/
def samplePace : List TimedRead :=
  [150, 150, 150, 150, 150, 150, 151].zipWith (fun wait event => ⟨wait, sampleShared, event⟩) sampleReads

/-- It is heard, and then nothing for too long. -/
theorem paced_messages_heard_sample :
    rawPayloads (Reader.runTimed sampleKeys Parsers.rejecting ⟨32768, 60, 0, 150, 5⟩
      (samplePace ++ [⟨151, sampleShared, .frame .binary [7]⟩]) (sampleReader (sampleHs []))).2.handler.calls =
        [(6, []), (0, [79, 75]), (1, [7])] := by
  have hpaced : Timing.Paced ⟨32768, 60, 0, 150, 5⟩ .start samplePace := by
    refine ⟨?_, ?_, ?_, ?_, ?_, ?_, ?_, trivial⟩
    all_goals
      unfold Timing.Pace
      decide
  exact (paced_messages_heard LoxHandler.quiet_unit sampleKeys Parsers.rejecting samplePace sampleReads_stream
    (s := sampleReader (sampleHs [])) rfl hpaced rfl _ rfl).2.raw

end Lox
