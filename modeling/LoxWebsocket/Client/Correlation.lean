import LoxWebsocket.Client.Pending
import LoxWebsocket.Framework.Fifo
import LoxWebsocket.Framework.Run

/-!
# Which waiter an answer completes

The queue of a session against a Miniserver that answers each command once and
in order: `Correlation` keeps, beside the queue, what was pushed and how many
answers have come. The queue is that of a `Fifo` (`Sim`), so an answer
completes its own waiter unless the queue has run ahead of the answers. That
happens when `expire` drops an entry whose answer is still to come: the answer
then goes to the next waiter (`late_answer_misdelivered`).

A run delivers every answer to its own waiter if and only if each answer that
completes a waiter comes when no more answers are owed than entries wait
(`ownAnswers_iff`).
-/

namespace Lox

variable {C : Crates}

/-- A waiter completed with `Ok`, by which answer. -/
structure Completion where
  waiter : Waiter
  answer : Nat
  payload : Bytes
  deriving DecidableEq

/-- A session's queue, with the entries pushed so far, the answers so far (the
`k`-th is the one to the `k`-th command) and the waiters completed. -/
structure Correlation where
  queue : PendingQueue
  issued : List PendingEntry
  answers : List Bytes
  completed : List Completion
  deriving DecidableEq

namespace Correlation

inductive Label
  | push (plaintextCmd wireCmd : Str) (wait : Bool) (deadline : Instant)
  | answer (control : Option Str) (payload : Bytes)
  | expire (now : Instant)

def init : Correlation := ⟨PendingQueue.new, [], [], []⟩

/-- A waiter is named by the number of its command. -/
def step (keys : SessionKeys C) (s : Correlation) : Label → Option Correlation
  | .push plaintextCmd wireCmd wait deadline =>
    let resp := if wait then some s.issued.length else none
    some { s with
      queue := s.queue.push plaintextCmd wireCmd resp deadline
      issued := s.issued ++ [⟨plaintextCmd, wireCmd, resp, deadline⟩] }
  | .answer control payload =>
    if s.answers.length < s.issued.length then
      let (resolved, queue) := s.queue.resolve control keys
      match resolved with
      | none => some { s with queue := queue.noteUnsolicited, answers := s.answers ++ [payload] }
      | some r =>
        some { s with
          queue
          answers := s.answers ++ [payload]
          completed := s.completed ++ r.resp.toList.map fun w => ⟨w, s.answers.length, payload⟩ }
    else none
  | .expire now => some { s with queue := (s.queue.expire now).2.1 }

/-- The answers still to come. -/
def owed (s : Correlation) : Nat := s.issued.length - s.answers.length

/-- Every waiter completed with `Ok` got the answer to its own command. -/
def OwnAnswers (s : Correlation) : Prop :=
  ∀ c ∈ s.completed, (s.issued[c.answer]?).bind PendingEntry.resp = some c.waiter ∧
    s.answers[c.answer]? = some c.payload

/-- An answer that completes a waiter comes when no more answers are owed than
entries wait. -/
def InOrder (s : Correlation) : Label → Prop
  | .answer _ _ => s.owed ≤ s.queue.entries.length ∨ (s.queue.entries.head?).bind PendingEntry.resp = none
  | _ => True

/-! ## The abstract queue -/

/-- The queue is that of `f`. -/
structure Sim (s : Correlation) (f : Fifo PendingEntry) : Prop where
  issued : s.issued = f.issued
  answers : s.answers.length = f.answered
  entries : s.queue.entries = f.queue

/-- Waiters are named by their commands, and answers are logged as they come. -/
structure Named (s : Correlation) : Prop where
  resp : ∀ (i : Nat) (e : PendingEntry), s.issued[i]? = some e → e.resp = none ∨ e.resp = some i
  payload : ∀ c ∈ s.completed, s.answers[c.answer]? = some c.payload
  answer_lt : ∀ c ∈ s.completed, c.answer < s.issued.length

/-- What holds in every run. -/
def Inv (s : Correlation) : Prop := (∃ f, Sim s f) ∧ Named s

theorem inv_init : Inv init := by
  refine ⟨⟨Fifo.empty, rfl, rfl, rfl⟩, fun i e h => ?_, fun c h => ?_, fun c h => ?_⟩
  · simp [init] at h
  · cases h
  · cases h

theorem Sim.owed_le {s : Correlation} {f : Fifo PendingEntry} (h : Sim s f) :
    s.owed ≤ s.queue.entries.length ↔ f.lag = 0 := by
  rw [f.lag_eq_zero_iff_owed, owed, Fifo.owed, h.issued, h.answers, h.entries]

/-- An answer moves the queue as `Fifo.answer` does and completes the waiter of
the front entry. -/
theorem step_answer {keys : SessionKeys C} {s s' : Correlation} {f : Fifo PendingEntry} (hf : Sim s f)
    {control : Option Str} {payload : Bytes} (h : step keys s (.answer control payload) = some s') :
    ∃ hlt, Sim s' (f.answer hlt) ∧ s'.issued = s.issued ∧ s'.answers = s.answers ++ [payload] ∧
      s'.completed = s.completed ++ ((s.queue.entries.head?).bind PendingEntry.resp).toList.map
        fun w => ⟨w, s.answers.length, payload⟩ := by
  simp only [step] at h
  split at h
  · rename_i hlt
    have hlt' : f.answered < f.issued.length := by rw [← hf.answers, ← hf.issued]; exact hlt
    refine ⟨hlt', ?_⟩
    have hq := f.queue_answer hlt'
    rw [← hf.entries] at hq
    cases he : s.queue.entries with
    | nil =>
      rw [PendingQueue.resolve_nil he] at h
      cases h
      refine ⟨⟨hf.issued, ?_, ?_⟩, rfl, rfl, by simp⟩
      · simp [Fifo.answer, hf.answers]
      · rw [hq, he]; exact he
    | cons entry rest =>
      obtain ⟨r, n, hr, -, hresp⟩ := PendingQueue.resolve_cons he control keys
      rw [hr] at h
      cases h
      refine ⟨⟨hf.issued, ?_, ?_⟩, rfl, rfl, by simp [hresp]⟩
      · simp [Fifo.answer, hf.answers]
      · rw [hq, he, List.tail_cons]
  · cases h

theorem inv_step {keys : SessionKeys C} {s s' : Correlation} {l : Label} (hs : Inv s)
    (h : step keys s l = some s') : Inv s' := by
  obtain ⟨⟨f, hf⟩, hn⟩ := hs
  cases l with
  | push plaintextCmd wireCmd wait deadline =>
    cases h
    let e : PendingEntry := ⟨plaintextCmd, wireCmd, if wait then some s.issued.length else none, deadline⟩
    refine ⟨⟨f.issue e, congrArg (· ++ [e]) hf.issued, hf.answers, ?_⟩, ?_, hn.payload, ?_⟩
    · rw [Fifo.queue_issue, ← hf.entries]; rfl
    · intro i e he
      rcases Nat.lt_or_ge i s.issued.length with hi | hi
      · rw [List.getElem?_append_left hi] at he
        exact hn.resp i e he
      · rw [List.getElem?_append_right hi, List.getElem?_singleton] at he
        split at he <;> cases he
        have : i = s.issued.length := by omega
        cases wait <;> simp [this]
    · intro c hc
      have := hn.answer_lt c hc
      simp only [List.length_append]; omega
  | answer control payload =>
    obtain ⟨hlt, hf', hi, ha, hc⟩ := step_answer hf h
    have hlen : s.answers.length < s.issued.length := by rw [hf.answers, hf.issued]; exact hlt
    refine ⟨⟨_, hf'⟩, fun i e he => hn.resp i e (hi ▸ he), fun c hm => ?_, fun c hm => ?_⟩
    · rw [hc, List.mem_append, List.mem_map] at hm
      rw [ha]
      rcases hm with hm | ⟨w, -, rfl⟩
      · have := hn.payload c hm
        rw [List.getElem?_append_left (List.getElem?_eq_some_iff.mp this).1, this]
      · simp
    · rw [hc, List.mem_append, List.mem_map] at hm
      rw [hi]
      rcases hm with hm | ⟨w, -, rfl⟩
      · exact hn.answer_lt c hm
      · exact hlen
  | expire now =>
    cases h
    obtain ⟨hle, he, -⟩ := s.queue.expire_entries now
    refine ⟨⟨f.giveUp (s.queue.expire now).1 (hf.entries ▸ hle), hf.issued, hf.answers, ?_⟩, hn.resp,
      hn.payload, hn.answer_lt⟩
    rw [Fifo.queue_giveUp, ← hf.entries]
    exact he

/-! ## Own answers -/

/-- The front entry's own answer is the next one if and only if there is no
lag. -/
theorem front_own_iff {s : Correlation} {f : Fifo PendingEntry} (hf : Sim s f) (hn : Named s) {w : Waiter}
    (hw : (s.queue.entries.head?).bind PendingEntry.resp = some w) :
    (s.issued[s.answers.length]?).bind PendingEntry.resp = some w ↔ s.owed ≤ s.queue.entries.length := by
  rw [hf.owed_le, hf.answers, hf.issued]
  rw [hf.entries] at hw
  refine ⟨fun h => ?_, fun h => by rw [← Fifo.head?_queue_of_lag h, hw]⟩
  -- both entries name their waiter by their number
  have name : ∀ i, (f.issued[i]?).bind PendingEntry.resp = some w → i = w := by
    intro i hi
    obtain ⟨e, he, hr⟩ := Option.bind_eq_some_iff.mp hi
    rcases hn.resp i e (hf.issued ▸ he) with h | h
    · rw [h] at hr; cases hr
    · rw [h] at hr; exact Option.some.inj hr
  rw [Fifo.head?_queue] at hw
  rw [f.lag_eq_zero_iff, name _ hw, name _ h]

/-- A step leads to own answers only if it comes from them and is in order, and
conversely. -/
theorem ownAnswers_step {keys : SessionKeys C} {s s' : Correlation} {l : Label} (hs : Inv s)
    (h : step keys s l = some s') : OwnAnswers s' ↔ OwnAnswers s ∧ InOrder s l := by
  obtain ⟨⟨f, hf⟩, hn⟩ := hs
  cases l with
  | push plaintextCmd wireCmd wait deadline =>
    cases h
    simp only [InOrder, and_true]
    refine forall₂_congr fun c hc => ?_
    rw [List.getElem?_append_left (hn.answer_lt c hc)]
  | answer control payload =>
    have hp := (inv_step ⟨⟨f, hf⟩, hn⟩ h).2.payload
    obtain ⟨hlt, hf', hi, ha, hc⟩ := step_answer hf h
    have hold : OwnAnswers s ↔
        ∀ c ∈ s.completed, (s.issued[c.answer]?).bind PendingEntry.resp = some c.waiter :=
      forall₂_congr fun c hm => and_iff_left (hn.payload c hm)
    have hnew : OwnAnswers s' ↔
        ∀ c ∈ s'.completed, (s.issued[c.answer]?).bind PendingEntry.resp = some c.waiter :=
      forall₂_congr fun c hm => by rw [hi]; exact and_iff_left (hp c hm)
    rw [hnew, hold, hc, List.forall_mem_append, InOrder]
    refine and_congr_right fun _ => ?_
    cases hw : (s.queue.entries.head?).bind PendingEntry.resp with
    | none => simp
    | some w =>
      rw [← front_own_iff hf hn hw]
      simp
  | expire now =>
    cases h
    simp only [InOrder, and_true]
    rfl

/-- In every run of pushes, answers and expiries, every waiter that gets `Ok`
gets the answer to its own command if and only if each answer that completes a
waiter comes when no more answers are owed than entries wait. -/
theorem ownAnswers_iff (keys : SessionKeys C) {ls : List Label} {s : Correlation}
    (h : run (step keys) init ls = some s) : OwnAnswers s ↔ Along (step keys) InOrder init ls := by
  refine ⟨fun hs => (along_of_run inv_step (fun hq hst hp => ?_) inv_init h hs).2, fun ha => ?_⟩
  · exact (ownAnswers_step hq hst).mp hp
  · refine (run_inv_along (P := fun s => Inv s ∧ OwnAnswers s) (fun hc hp hst => ?_) ha
      ⟨inv_init, fun c hc => by cases hc⟩ h).2
    exact ⟨inv_step hp.1 hst, (ownAnswers_step hp.1 hst).mpr ⟨hp.2, hc⟩⟩

/-- Two commands, each answered before the next expires. -/
def promptRun : List Label :=
  [.push "jdev/sys/getkey".toList "jdev/sys/enc/a".toList true 10, .answer none [1],
    .push "jdev/cfg/api".toList "jdev/sys/enc/b".toList true 20, .answer none [2], .expire 30]

theorem ownAnswers_iff_prompt :
    ∃ s, run (step sampleKeys) init promptRun = some s ∧
      (OwnAnswers s ↔ Along (step sampleKeys) InOrder init promptRun) :=
  ⟨_, rfl, ownAnswers_iff sampleKeys rfl⟩

/-- The structure file takes longer than its waiter's deadline; its answer then
completes the waiter of the command behind it. -/
def lateRun : List Label :=
  [.push "data/LoxAPP3.json".toList "jdev/sys/enc/a".toList true 10,
    .push "jdev/sys/getkey".toList "jdev/sys/enc/b".toList true 20, .expire 10, .answer none [123, 125]]

theorem late_answer_misdelivered :
    ∃ s, run (step sampleKeys) init lateRun = some s ∧
      s.completed = [⟨1, 0, [123, 125]⟩] ∧ ¬ OwnAnswers s := by
  refine ⟨_, rfl, rfl, fun h => ?_⟩
  exact absurd (h ⟨1, 0, [123, 125]⟩ (by decide)).1 (by decide)

end Correlation

end Lox
