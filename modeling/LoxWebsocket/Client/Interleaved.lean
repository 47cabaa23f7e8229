import LoxWebsocket.Client.Framing

/-!
# The budget of interleaved messages

`readPayload` reads at most 64 headers before it gives up. A message takes a header,
and one more if an estimate announces it, the answer among them (`rounds`). So an
answer is reached if and only if the messages before it and their estimates leave
room for its own headers (`readPayload_iff`), which are fewer than 64 messages.
-/

namespace Lox

/-- A message, and whether an estimated header announces it. -/
abbrev Arrival := Msg × Bool

/-- The exact header of a message and, unless it is empty, its payload. -/
inductive Body : Msg → List ReadEvent → Prop
  | empty {op : OpCode} {frame : Bytes} {id : UInt8} (hop : DataOp op) (hf : ExactHeader (id, []) frame) :
      Body (id, []) [.frame op frame]
  | message {op op' : OpCode} {frame payload : Bytes} {id : UInt8} (hop : DataOp op) (hop' : DataOp op')
      (hne : payload ≠ []) (hf : ExactHeader (id, payload) frame) :
      Body (id, payload) [.frame op frame, .frame op' payload]

/-- The frames of a message. -/
inductive OnWire : Arrival → List ReadEvent → Prop
  | exact {m : Msg} {es : List ReadEvent} (h : Body m es) : OnWire (m, false) es
  | estimated {m : Msg} {es : List ReadEvent} {op : OpCode} {frame : Bytes} {hdr : WsBinHdr} (hop : DataOp op)
      (hf : parseHeader frame = .ok (some hdr)) (hest : hdr.isEstimated = true) (h : Body m es) :
      OnWire (m, true) (.frame op frame :: es)

/-- The frames of messages, one after another. -/
inductive AllOnWire : List Arrival → List ReadEvent → Prop
  | nil : AllOnWire [] []
  | cons {t : Arrival} {ts : List Arrival} {es es' : List ReadEvent} (h : OnWire t es) (hs : AllOnWire ts es') :
      AllOnWire (t :: ts) (es ++ es')

/-- The headers of a message. -/
def Arrival.rounds (t : Arrival) : Nat := if t.2 then 2 else 1

/-- The headers of messages. -/
def rounds (ts : List Arrival) : Nat := (ts.map Arrival.rounds).sum

namespace Handshake

variable {η σ : Type} [LoxHandler η]

def budgetError : Error := .protocol "no handshake answer within the interleaved frame budget".toList

/-! ## One header -/

theorem readPayloadLoop_zero (s : HsState η σ) : readPayloadLoop 0 s = (.error budgetError, s) := rfl

theorem readPayloadLoop_estimated {s : HsState η σ} {op : OpCode} {frame : Bytes} {es : List ReadEvent}
    (hs : s.reads = .frame op frame :: es) (hop : DataOp op) {hdr : WsBinHdr}
    (hf : parseHeader frame = .ok (some hdr)) (hest : hdr.isEstimated = true) (n : Nat) :
    readPayloadLoop (n + 1) s = readPayloadLoop n { s with reads := es } := by
  rw [readPayloadLoop, Prog.bind_apply, readHeader_frame hs hop hf]
  simp only [hest, if_true]

/-- What a round of the loop does with the message it has read, with `n` rounds left. -/
def dispatchBody (m : Msg) (n : Nat) : Hs η σ Bytes :=
  if m.1 = MessageType.text.toU8 then do
    guarded fun h => h.call (.onRawPayload m.1 m.2)
    pure m.2
  else do
    let _ ← guarded fun h => rawThenEvent m.1 m.2 h
    readPayloadLoop n

theorem readPayloadLoop_body {s : HsState η σ} {m : Msg} {es rest : List ReadEvent} (h : Body m es)
    (hs : s.reads = es ++ rest) (n : Nat) :
    readPayloadLoop (n + 1) s = dispatchBody m n { s with reads := rest } := by
  cases h with
  | empty hop hf =>
    obtain ⟨hdr, hp, hest, hid, hlen⟩ := hf.parse
    have hlen : hdr.len = 0 := hlen.mpr rfl
    rw [readPayloadLoop, Prog.bind_apply, readHeader_frame hs hop hp]
    simp only [hest, Bool.false_eq_true, if_false, hid]
    rw [if_neg hf.identifier, Prog.bind_apply, readBody, if_pos hlen]
    rfl
  | message hop hop' hne hf =>
    obtain ⟨hdr, hp, hest, hid, hlen⟩ := hf.parse
    have hlen : ¬ hdr.len = 0 := fun h => hne (hlen.mp h)
    rw [readPayloadLoop, Prog.bind_apply, readHeader_frame hs hop hp]
    simp only [hest, Bool.false_eq_true, if_false, hid]
    rw [if_neg hf.identifier, Prog.bind_apply, readBody, if_neg hlen, readFrameBytes_frame rfl hop']
    rfl

/-! ## One message -/

/-- The headers of a message are taken from the budget. -/
theorem readPayloadLoop_headers {s : HsState η σ} {t : Arrival} {es rest : List ReadEvent} (h : OnWire t es)
    (hs : s.reads = es ++ rest) (n : Nat) :
    (n < t.rounds → ∃ s', readPayloadLoop n s = (.error budgetError, s')) ∧
    (∀ k, n = t.rounds + k → readPayloadLoop n s = dispatchBody t.1 k { s with reads := rest }) := by
  cases h with
  | exact h =>
    refine ⟨fun hn => ?_, fun k hk => ?_⟩
    · have hzero : n = 0 := Nat.lt_one_iff.mp hn
      subst hzero
      exact ⟨s, readPayloadLoop_zero s⟩
    · subst hk
      rw [show Arrival.rounds (_, false) + k = k + 1 from Nat.add_comm 1 k]
      exact readPayloadLoop_body h hs k
  | estimated hop hf hest h =>
    rw [List.cons_append] at hs
    refine ⟨fun hn => ?_, fun k hk => ?_⟩
    · rcases n with _ | _ | n
      · exact ⟨s, readPayloadLoop_zero s⟩
      · exact ⟨_, readPayloadLoop_estimated hs hop hf hest 0⟩
      · exact absurd (show n + 2 < 2 from hn) (by omega)
    · subst hk
      rw [show Arrival.rounds (_, true) + k = (k + 1) + 1 from Nat.add_comm 2 k,
        readPayloadLoop_estimated hs hop hf hest]
      exact readPayloadLoop_body (s := { s with reads := _ }) h rfl k

variable (hq : LoxHandler.Quiet η)

include hq in
/-- The handler is given a message that is no answer, and the loop goes on. -/
theorem dispatchBody_other {s : HsState η σ} (hg : s.handler.panicked = false) {m : Msg}
    (hm : m.1 ≠ MessageType.text.toU8) (k : Nat) :
    ∃ g, Saw [m] s.handler g ∧ dispatchBody m k s = readPayloadLoop k { s with handler := g } := by
  obtain ⟨g, he, hsaw⟩ := guard_rawThenEvent hq hg m
  refine ⟨g, hsaw, ?_⟩
  rw [dispatchBody, if_neg hm, Prog.bind_apply, guarded_ok he]

include hq in
/-- The handler is given the answer, which is returned. -/
theorem dispatchBody_answer {s : HsState η σ} (hg : s.handler.panicked = false) {m : Msg}
    (hm : m.1 = MessageType.text.toU8) (k : Nat) :
    ∃ g, Saw [m] s.handler g ∧ dispatchBody m k s = (.ok m.2, { s with handler := g }) := by
  have htable : isEventTable m = false := by
    rw [isEventTable, hm]
    rfl
  obtain ⟨g, he, hsaw⟩ := guard_raw hq hg htable
  refine ⟨g, hsaw, ?_⟩
  rw [dispatchBody, if_pos hm, Prog.bind_apply, guarded_ok he]
  rfl

/-! ## A stream up to its answer -/

include hq in
/-- Either the headers fit the budget, and the messages and the answer have been
given to the handler; or the loop gives up. -/
theorem readPayloadLoop_onWire {ts : List Arrival} {es : List ReadEvent} (hts : AllOnWire ts es)
    (hother : ∀ t ∈ ts, t.1.1 ≠ MessageType.text.toU8) {a : Arrival} {es' rest : List ReadEvent} (ha : OnWire a es')
    (htext : a.1.1 = MessageType.text.toU8) {s : HsState η σ} (hs : s.reads = es ++ (es' ++ rest))
    (hg : s.handler.panicked = false) (n : Nat) :
    (n < rounds ts + a.rounds → ∃ s', readPayloadLoop n s = (.error budgetError, s')) ∧
    (rounds ts + a.rounds ≤ n → ∃ g, Saw (ts.map Prod.fst ++ [a.1]) s.handler g ∧
      readPayloadLoop n s = (.ok a.1.2, { s with reads := rest, handler := g })) := by
  induction hts generalizing s n with
  | nil =>
    rw [show rounds [] + a.rounds = a.rounds from Nat.zero_add _]
    obtain ⟨hshort, hread⟩ := readPayloadLoop_headers ha hs n
    refine ⟨hshort, fun hn => ?_⟩
    obtain ⟨k, rfl⟩ := Nat.exists_eq_add_of_le hn
    obtain ⟨g, hsaw, hok⟩ := dispatchBody_answer hq (s := { s with reads := rest }) hg htext k
    exact ⟨g, hsaw, (hread k rfl).trans hok⟩
  | @cons t ts es₁ es₂ ht hts ih =>
    rw [List.forall_mem_cons] at hother
    rw [List.append_assoc] at hs
    have hsum : rounds (t :: ts) = t.rounds + rounds ts := by
      rw [rounds, List.map_cons, List.sum_cons, rounds]
    obtain ⟨hshort, hread⟩ := readPayloadLoop_headers ht hs n
    by_cases hn : n < t.rounds
    · exact ⟨fun _ => hshort hn, fun h => by omega⟩
    · obtain ⟨k, rfl⟩ := Nat.exists_eq_add_of_le (Nat.not_lt.mp hn)
      obtain ⟨g, hsaw, hloop⟩ :=
        dispatchBody_other hq (s := { s with reads := es₂ ++ (es' ++ rest) }) hg hother.1 k
      have hnext := ih hother.2 (s := { s with reads := es₂ ++ (es' ++ rest), handler := g }) rfl
        (hsaw.panicked.trans hg) k
      rw [hread k rfl, hloop]
      refine ⟨fun h => hnext.1 (by omega), fun h => ?_⟩
      obtain ⟨g', hsaw', hok⟩ := hnext.2 (by omega)
      exact ⟨g', hsaw.trans hsaw', hok⟩

include hq in
/-- The answer is returned, with all messages before it given to the handler in
order, if and only if its headers and those before it are at most 64; otherwise the
handshake gives up. -/
theorem readPayload_iff {ts : List Arrival} {es : List ReadEvent} (hts : AllOnWire ts es)
    (hother : ∀ t ∈ ts, t.1.1 ≠ MessageType.text.toU8) {a : Arrival} {es' rest : List ReadEvent} (ha : OnWire a es')
    (htext : a.1.1 = MessageType.text.toU8) {s : HsState η σ} (hs : s.reads = es ++ (es' ++ rest))
    (hg : s.handler.panicked = false) :
    ((∃ g, Saw (ts.map Prod.fst ++ [a.1]) s.handler g ∧
      readPayload s = (.ok a.1.2, { s with reads := rest, handler := g })) ↔
        rounds ts + a.rounds ≤ maxInterleavedFrames) ∧
    ((∃ s', readPayload s = (.error budgetError, s')) ↔ maxInterleavedFrames < rounds ts + a.rounds) := by
  obtain ⟨hgiveUp, hread⟩ := readPayloadLoop_onWire hq hts hother ha htext hs hg maxInterleavedFrames
  have hnot {g : HandlerGuard η} {s' : HsState η σ}
      (hok : readPayload s = (.ok a.1.2, { s with reads := rest, handler := g }))
      (herr : readPayload s = (.error budgetError, s')) : False := by
    rw [hok] at herr
    exact absurd (congrArg Prod.fst herr) (by simp)
  refine ⟨⟨?_, hread⟩, ⟨?_, hgiveUp⟩⟩
  · rintro ⟨g, -, hok⟩
    by_contra hlt
    obtain ⟨s', herr⟩ := hgiveUp (by omega)
    exact hnot hok herr
  · rintro ⟨s', herr⟩
    by_contra hge
    obtain ⟨g, -, hok⟩ := hread (by omega)
    exact hnot hok herr

/-! ## Tables before an answer -/

/-- An empty table of values, without an estimate. -/
def sampleTable : Arrival := ((2, []), false)

/-- The answer `OK`, without an estimate. -/
def okAnswer : Arrival := ((0, [79, 75]), false)

def tableFrame : ReadEvent := .frame .binary (encodeHeader 2 0 0 0)

def okFrames : List ReadEvent := [.frame .binary (encodeHeader 0 0 0 2), .frame .text [79, 75]]

theorem allOnWire_tables (n : Nat) : AllOnWire (List.replicate n sampleTable) (List.replicate n tableFrame) := by
  induction n with
  | zero => exact .nil
  | succ n ih =>
    have hf : ExactHeader (2, []) (encodeHeader 2 0 0 0) := ⟨by decide, by decide, 0, 0, rfl, rfl⟩
    exact .cons (.exact (.empty (.inr rfl) hf)) ih

theorem ok_onWire : OnWire okAnswer okFrames := by
  have hf : ExactHeader (0, [79, 75]) (encodeHeader 0 0 0 2) := ⟨by decide, by decide, 0, 0, rfl, rfl⟩
  exact .exact (.message (.inr rfl) (.inl rfl) (by decide) hf)

theorem table_ne_text {n : Nat} : ∀ t ∈ List.replicate n sampleTable, t.1.1 ≠ MessageType.text.toU8 := by
  intro t ht
  rw [List.eq_of_mem_replicate ht]
  decide

/-- One table before the answer. -/
theorem readPayload_iff_one_table :
    ((∃ g, Saw [(2, []), (0, [79, 75])] (HandlerGuard.new ()) g ∧
      readPayload (sampleHs (List.replicate 1 tableFrame ++ (okFrames ++ []))) =
        (.ok [79, 75], { sampleHs [] with handler := g })) ↔
      rounds (List.replicate 1 sampleTable) + okAnswer.rounds ≤ maxInterleavedFrames) ∧
    ((∃ s', readPayload (sampleHs (List.replicate 1 tableFrame ++ (okFrames ++ []))) = (.error budgetError, s')) ↔
      maxInterleavedFrames < rounds (List.replicate 1 sampleTable) + okAnswer.rounds) :=
  readPayload_iff LoxHandler.quiet_unit (allOnWire_tables 1) table_ne_text ok_onWire rfl
    (s := sampleHs (List.replicate 1 tableFrame ++ (okFrames ++ []))) rfl rfl

/-- With as many tables before the answer as are said to be tolerated, the handshake
gives up. -/
theorem readPayload_gives_up :
    AllOnWire (List.replicate maxInterleavedFrames sampleTable) (List.replicate maxInterleavedFrames tableFrame) ∧
    OnWire okAnswer okFrames ∧
    ∃ s', readPayload (sampleHs (List.replicate maxInterleavedFrames tableFrame ++ (okFrames ++ []))) =
      (.error budgetError, s') := by
  refine ⟨allOnWire_tables _, ok_onWire, ?_⟩
  have hrounds : maxInterleavedFrames <
      rounds (List.replicate maxInterleavedFrames sampleTable) + okAnswer.rounds := by decide
  exact (readPayloadLoop_onWire LoxHandler.quiet_unit (allOnWire_tables _) table_ne_text ok_onWire rfl
    (s := sampleHs _) rfl rfl maxInterleavedFrames).1 hrounds

end Handshake

end Lox
