import LoxWebsocket.Client.Correlation

/-!
# Commands and answers of a session

What a session is for, seen from the queue: the writer pushes an entry and
writes its text, the Miniserver answers the texts in the order it received
them, the reader takes an answer and the entry at the front of the queue. A
write may fail, with its text lost, and then nothing more is written; entries
may expire, and at the end the queue is emptied.

`Inv` is kept by every step (`inv_step`): the Miniserver has received the texts
of the entries in the order of the pushes, and the queue is that of a `Fifo`
without lag as long as nothing has expired. So an answer is then that of the
entry it is matched with (`Inv.own`).
-/

namespace Lox

structure Exchange where
  /-- Every entry pushed so far, and those that wait. -/
  pushed : List PendingEntry
  entries : List PendingEntry
  timeouts : Nat
  unsolicited : Nat
  /-- The encrypted texts the Miniserver has received. -/
  received : List Str
  /-- What is pushed and to be written next; `none` when nothing more is. -/
  unsent : Option (List Str)
  /-- Type-0 messages of the Miniserver, and how many the reader has taken. -/
  answers : List Bytes
  read : Nat
  /-- What the reader will deliver for the answer it is at. -/
  matched : List Completion
  completed : List Completion
  /-- The writer has emptied the queue. -/
  done : Bool

namespace Exchange

/-- A step of a session that pushes only entries of which `G` holds. -/
inductive Step (G : PendingEntry → Prop) : Exchange → Exchange → Prop
  | still (x : Exchange) : Step G x x
  | push (x : Exchange) (e : PendingEntry) (h : x.unsent = some []) (hg : G e) :
      Step G x { x with
        pushed := x.pushed ++ [e], entries := x.entries ++ [e], unsent := some [e.wireCmd] }
  | sent (x : Exchange) (l : List Str) (h : x.unsent = some l) :
      Step G x { x with received := x.received ++ l, unsent := some [] }
  | abandon (x : Exchange) (l l' : List Str) (h : x.unsent = some l) (hl : l' <+: l) :
      Step G x { x with received := x.received ++ l', unsent := none }
  | expire (x : Exchange) (n : Nat) (h : n ≤ x.entries.length) :
      Step G x { x with entries := x.entries.drop n, timeouts := x.timeouts + n }
  | finish (x : Exchange) : Step G x { x with entries := [], unsent := none, done := true }
  | serve (x : Exchange) (payload : Bytes) (h : x.answers.length < x.received.length) :
      Step G x { x with answers := x.answers ++ [payload] }
  | unsolicited (x : Exchange) (payload : Bytes) (h : x.answers[x.read]? = some payload)
      (he : x.entries = []) :
      Step G x { x with unsolicited := x.unsolicited + 1, read := x.read + 1 }
  | resolve (x : Exchange) (payload : Bytes) (e : PendingEntry) (rest : List PendingEntry)
      (h : x.answers[x.read]? = some payload) (he : x.entries = e :: rest) :
      Step G x { x with
        entries := rest, read := x.read + 1, matched := e.resp.toList.map (⟨·, x.read, payload⟩) }
  | complete (x : Exchange) : Step G x { x with completed := x.completed ++ x.matched, matched := [] }

/-- The completion is of the waiter whose command the answer is to. -/
def Own (x : Exchange) (c : Completion) : Prop :=
  ∃ e, x.pushed[c.answer]? = some e ∧ e.resp = some c.waiter ∧ x.answers[c.answer]? = some c.payload

/-- The queue is that of `f`; without expiry `f` has no lag. -/
structure Sim (x : Exchange) (f : Fifo PendingEntry) : Prop where
  issued : f.issued = x.pushed
  answered : f.answered = x.read
  entries : x.entries = f.queue
  lag : x.done = false → x.timeouts = 0 → f.lag = 0

structure Inv (G : PendingEntry → Prop) (x : Exchange) : Prop where
  good : ∀ e ∈ x.pushed, G e
  wire : x.received <+: x.pushed.map PendingEntry.wireCmd
  unsent : ∀ l, x.unsent = some l → x.pushed.map PendingEntry.wireCmd = x.received ++ l
  served : x.answers.length ≤ x.received.length
  read : x.read ≤ x.answers.length
  done : x.done = true → x.unsent = none ∧ x.entries = []
  fifo : ∃ f, Sim x f
  solicited : x.done = false → x.timeouts = 0 → x.unsolicited = 0
  own : x.timeouts = 0 → ∀ c ∈ x.completed ++ x.matched, x.Own c

def init : Exchange := ⟨[], [], 0, 0, [], some [], [], 0, [], [], false⟩

variable {G : PendingEntry → Prop}

theorem inv_init : Inv G init where
  good e he := by cases he
  wire := List.prefix_refl _
  unsent l h := by cases h; rfl
  served := Nat.le_refl _
  read := Nat.le_refl _
  done h := by cases h
  fifo := ⟨Fifo.empty, rfl, rfl, rfl, fun _ _ => rfl⟩
  solicited _ _ := rfl
  own _ c hc := by simp [init] at hc

/-- A completion stays right while pushes and answers are added. -/
theorem Own.mono {x y : Exchange} {c : Completion} (h : x.Own c) (hp : x.pushed <+: y.pushed)
    (ha : x.answers <+: y.answers) : y.Own c := by
  obtain ⟨e, he, hr, hc⟩ := h
  exact ⟨e, getElem?_of_extends hp he, hr, getElem?_of_extends ha hc⟩

/-- The answer the reader is at belongs to an entry that was pushed. -/
theorem Inv.read_lt {x : Exchange} (hx : Inv G x) {payload : Bytes} (h : x.answers[x.read]? = some payload) :
    x.read < x.pushed.length := by
  have h₁ := (List.getElem?_eq_some_iff.mp h).1
  have h₂ := hx.served
  have h₃ := hx.wire.length_le
  rw [List.length_map] at h₃
  omega

theorem inv_step {x y : Exchange} (hx : Inv G x) (h : Step G x y) : Inv G y := by
  obtain ⟨f, hf⟩ := hx.fifo
  cases h with
  | still => exact hx
  | push e h hg =>
    have hnd : x.done = false := by
      cases hd : x.done with
      | false => rfl
      | true => rw [(hx.done hd).1] at h; cases h
    have hw := hx.unsent [] h
    rw [List.append_nil] at hw
    refine ⟨?_, ?_, fun l hl => ?_, hx.served, hx.read, ?_, ⟨f.issue e, ?_, hf.answered, ?_, hf.lag⟩,
      hx.solicited, fun ht c hc => (hx.own ht c hc).mono (List.prefix_append _ _) (List.prefix_refl _)⟩
    · exact fun x hm => (List.mem_append.mp hm).elim (hx.good x) fun h => List.mem_singleton.mp h ▸ hg
    · rw [List.map_append, hw]; exact List.prefix_append _ _
    · cases hl; rw [List.map_append, hw]; rfl
    · intro hd; rw [hnd] at hd; cases hd
    · exact congrArg (· ++ [e]) hf.issued
    · rw [Fifo.queue_issue, ← hf.entries]
  | sent l h =>
    have hw := hx.unsent l h
    refine ⟨hx.good, by rw [hw], fun l' hl => ?_, ?_, hx.read, ?_, ⟨f, hf.issued, hf.answered, hf.entries, hf.lag⟩,
      hx.solicited, hx.own⟩
    · cases hl; rw [hw, List.append_nil]
    · exact Nat.le_trans hx.served (by rw [List.length_append]; exact Nat.le_add_right _ _)
    · intro hd; rw [(hx.done hd).1] at h; cases h
  | abandon l l' h hl =>
    have hw := hx.unsent l h
    refine ⟨hx.good, ?_, fun _ hl => (by cases hl), ?_, hx.read, fun hd => ⟨rfl, (hx.done hd).2⟩,
      ⟨f, hf.issued, hf.answered, hf.entries, hf.lag⟩, hx.solicited, hx.own⟩
    · rw [hw]; exact (List.prefix_append_right_inj _).mpr hl
    · exact Nat.le_trans hx.served (by rw [List.length_append]; exact Nat.le_add_right _ _)
  | expire n h =>
    refine ⟨hx.good, hx.wire, hx.unsent, hx.served, hx.read, fun hd => ⟨(hx.done hd).1, ?_⟩,
      ⟨f.giveUp n (hf.entries ▸ h), hf.issued, hf.answered, ?_, fun hd ht => ?_⟩,
      fun hd ht => hx.solicited hd (by simp only at ht; omega),
      fun ht => hx.own (by simp only at ht; omega)⟩
    · rw [(hx.done hd).2, List.drop_nil]
    · rw [Fifo.queue_giveUp, ← hf.entries]
    · simp only at ht
      rw [Fifo.lag_giveUp, hf.lag hd (by omega)]; omega
  | finish =>
    have hle : x.entries.length ≤ f.queue.length := by rw [hf.entries]
    refine ⟨hx.good, hx.wire, fun _ hl => (by cases hl), hx.served, hx.read, fun _ => ⟨rfl, rfl⟩,
      ⟨f.giveUp x.entries.length hle, hf.issued, hf.answered, ?_, fun hd => (by cases hd)⟩,
      fun hd => (by cases hd), hx.own⟩
    rw [Fifo.queue_giveUp, ← hf.entries, List.drop_length]
  | serve payload h =>
    refine ⟨hx.good, hx.wire, hx.unsent, ?_, ?_, hx.done, ⟨f, hf.issued, hf.answered, hf.entries, hf.lag⟩,
      hx.solicited, fun ht c hc => (hx.own ht c hc).mono (List.prefix_refl _) (List.prefix_append _ _)⟩
    · rw [List.length_append]; exact h
    · exact Nat.le_trans hx.read (by rw [List.length_append]; exact Nat.le_add_right _ _)
  | unsolicited payload h he =>
    have hlt : f.answered < f.issued.length := by rw [hf.answered, hf.issued]; exact hx.read_lt h
    have hread : x.read < x.answers.length := (List.getElem?_eq_some_iff.mp h).1
    -- without lag the queue is not empty
    have hlag : f.lag ≠ 0 := by
      intro h0
      have hq := Fifo.head?_queue_of_lag h0
      rw [← hf.entries, he, List.getElem?_eq_getElem hlt] at hq
      cases hq
    refine ⟨hx.good, hx.wire, hx.unsent, hx.served, hread, hx.done,
      ⟨f.answer hlt, hf.issued, congrArg (· + 1) hf.answered, ?_, fun hd ht => absurd (hf.lag hd ht) hlag⟩,
      fun hd ht => absurd (hf.lag hd ht) hlag, hx.own⟩
    rw [Fifo.queue_answer, ← hf.entries, he]; rfl
  | resolve payload e rest h he =>
    have hlt : f.answered < f.issued.length := by rw [hf.answered, hf.issued]; exact hx.read_lt h
    have hread : x.read < x.answers.length := (List.getElem?_eq_some_iff.mp h).1
    have hnd : x.done = false := by
      cases hd : x.done with
      | false => rfl
      | true => rw [(hx.done hd).2] at he; cases he
    refine ⟨hx.good, hx.wire, hx.unsent, hx.served, hread, fun hd => ?_,
      ⟨f.answer hlt, hf.issued, congrArg (· + 1) hf.answered, ?_,
        fun hd ht => f.lag_answer hlt (hf.lag hd ht)⟩, hx.solicited, fun ht c hc => ?_⟩
    · rw [hnd] at hd; cases hd
    · rw [Fifo.queue_answer, ← hf.entries, he]; rfl
    · rcases List.mem_append.mp hc with hc | hc
      · exact hx.own ht c (List.mem_append_left _ hc)
      · obtain ⟨w, hw, rfl⟩ := List.mem_map.mp hc
        have hq := Fifo.head?_queue_of_lag (hf.lag hnd ht)
        rw [← hf.entries, he, hf.answered, hf.issued] at hq
        exact ⟨e, hq.symm, by simpa using hw, h⟩
  | complete =>
    refine ⟨hx.good, hx.wire, hx.unsent, hx.served, hx.read, hx.done,
      ⟨f, hf.issued, hf.answered, hf.entries, hf.lag⟩, hx.solicited, fun ht c hc => ?_⟩
    rw [List.append_nil] at hc
    exact hx.own ht c hc

/-- An answered text is that of the entry pushed in its place. -/
theorem Inv.received_eq {x : Exchange} (hx : Inv G x) {k : Nat} {e : PendingEntry}
    (hp : x.pushed[k]? = some e) (hk : k < x.answers.length) : x.received[k]? = some e.wireCmd := by
  have hlt : k < x.received.length := Nat.lt_of_lt_of_le hk hx.served
  obtain ⟨rest, hw⟩ := hx.wire
  have h := congrArg (·[k]?) hw
  simp only [List.getElem?_append_left hlt, List.getElem?_map, hp] at h
  exact h

end Exchange

end Lox
