import LoxWebsocket.Client.Pending
import LoxWebsocket.Framework.Run

/-!
# Waiters are completed once and in order

`Waiters` is a queue under any sequence of its operations, with the entries
pushed, those that have left it and the oneshots used so far. Every command has
the same timeout and the clock does not go back, so the entries are in the order
of their deadlines. Hence they leave the queue in the order in which they came,
each oneshot is used when its entry leaves and only then, `expire` takes those
that are due and no others, and the front has the first deadline
(`waiters_once`).
-/

namespace Lox

variable {C : Crates}

structure Waiters where
  queue : PendingQueue
  /-- The latest clock reading. -/
  clock : Instant
  pushed : List PendingEntry
  removed : List PendingEntry
  used : List Waiter

namespace Waiters

open PendingQueue

inductive Label
  | push (plaintextCmd wireCmd : Str) (resp : Option Waiter) (now : Instant)
  | resolve (control : Option Str)
  | expire (now : Instant)
  | failAll (reason : Str)

def init : Waiters := ⟨PendingQueue.new, 0, [], [], []⟩

/-- After an operation that leaves `queue`: the entries that were in front have
left, and the oneshots `used` were used. -/
def leave (s : Waiters) (queue : PendingQueue) (used : List Waiter) : Waiters :=
  { s with
    queue
    removed := s.removed ++ s.queue.entries.take (s.queue.entries.length - queue.entries.length)
    used := s.used ++ used }

/-- A oneshot belongs to one entry; `resolve` gives it to the reader, which
sends the answer on it. -/
def step (keys : SessionKeys C) (timeout : Nat) (s : Waiters) : Label → Option Waiters
  | .push plaintextCmd wireCmd resp now =>
    if s.clock ≤ now ∧ ∀ w ∈ resp.toList, w ∉ senders s.pushed then
      some { s with
        queue := s.queue.push plaintextCmd wireCmd resp (now + timeout)
        clock := now
        pushed := s.pushed ++ [⟨plaintextCmd, wireCmd, resp, now + timeout⟩] }
    else none
  | .resolve control =>
    let (resolved, queue) := s.queue.resolve control keys
    some (s.leave queue (resolved.bind Resolved.resp).toList)
  | .expire now =>
    if s.clock ≤ now then
      let (_, queue, sent) := s.queue.expire now
      some { s.leave queue (sent.map Prod.fst) with clock := now }
    else none
  | .failAll reason =>
    let (_, queue, sent) := s.queue.failAll reason
    some (s.leave queue (sent.map Prod.fst))

structure Inv (timeout : Nat) (s : Waiters) : Prop where
  order : s.pushed = s.removed ++ s.queue.entries
  used : s.used = senders s.removed
  nodup : (senders s.pushed).Nodup
  sorted : Sorted s.queue.entries
  due : ∀ e ∈ s.queue.entries, e.deadline ≤ s.clock + timeout

variable {keys : SessionKeys C} {timeout : Nat}

theorem inv_init (timeout : Nat) : Inv timeout init :=
  ⟨rfl, rfl, List.nodup_nil, List.Pairwise.nil, fun _ h => by cases h⟩

theorem removed_leave {s : Waiters} {queue : PendingQueue} {n : Nat} (hq : queue.entries = s.queue.entries.drop n)
    (used : List Waiter) : (s.leave queue used).removed = s.removed ++ s.queue.entries.take n := by
  have hgone : s.queue.entries.take (s.queue.entries.length - queue.entries.length) = s.queue.entries.take n := by
    rw [hq, List.length_drop, List.take_eq_take_iff]
    omega
  rw [leave, hgone]

/-- Entries leave from the front, and their oneshots are used. -/
theorem inv_leave {s : Waiters} (hs : Inv timeout s) {queue : PendingQueue} {used : List Waiter} {n : Nat}
    (hq : queue.entries = s.queue.entries.drop n) (hu : used = senders (s.queue.entries.take n)) :
    Inv timeout (s.leave queue used) where
  order := by
    rw [removed_leave hq, List.append_assoc]
    change s.pushed = s.removed ++ (_ ++ queue.entries)
    rw [hq, List.take_append_drop]
    exact hs.order
  used := by
    rw [removed_leave hq, senders_append, ← hs.used, ← hu]
    rfl
  nodup := hs.nodup
  sorted := by
    change Sorted queue.entries
    rw [hq]
    exact hs.sorted.sublist (List.drop_sublist _ _)
  due e he := by
    change e ∈ queue.entries at he
    rw [hq] at he
    exact hs.due e (List.mem_of_mem_drop he)

theorem inv_later {s : Waiters} (hs : Inv timeout s) {now : Instant} (h : s.clock ≤ now) :
    Inv timeout { s with clock := now } :=
  ⟨hs.order, hs.used, hs.nodup, hs.sorted, fun e he =>
    Nat.le_trans (hs.due e he) (Nat.add_le_add_right h timeout)⟩

/-- A command that comes later has a later deadline. -/
theorem inv_push {s : Waiters} (hs : Inv timeout s) {plaintextCmd wireCmd : Str} {resp : Option Waiter}
    (hr : ∀ w ∈ resp.toList, w ∉ senders s.pushed) :
    Inv timeout { s with
      queue := s.queue.push plaintextCmd wireCmd resp (s.clock + timeout)
      pushed := s.pushed ++ [⟨plaintextCmd, wireCmd, resp, s.clock + timeout⟩] } where
  order := by rw [hs.order, List.append_assoc]; rfl
  used := hs.used
  nodup := by
    rw [senders_append, senders_cons, senders_nil, List.append_nil, List.nodup_append]
    refine ⟨hs.nodup, ?_, fun a ha b hb hab => hr b hb (hab ▸ ha)⟩
    cases resp with
    | none => exact List.nodup_nil
    | some w => exact List.pairwise_singleton _ _
  sorted := by
    refine List.pairwise_append.mpr ⟨hs.sorted, List.pairwise_singleton _ _, fun e he e' he' => ?_⟩
    rw [List.mem_singleton.mp he']
    exact hs.due e he
  due e he := by
    rcases List.mem_append.mp he with he | he
    · exact hs.due e he
    · rw [List.mem_singleton.mp he]

theorem inv_step {s s' : Waiters} {l : Label} (hs : Inv timeout s) (h : step keys timeout s l = some s') :
    Inv timeout s' := by
  cases l with
  | push plaintextCmd wireCmd resp now =>
    simp only [step] at h
    split_ifs at h with hc
    cases h
    exact inv_push (inv_later hs hc.1) hc.2
  | resolve control =>
    simp only [step] at h
    cases he : s.queue.entries with
    | nil =>
      rw [resolve_nil he] at h
      cases h
      exact inv_leave hs (n := 0) rfl rfl
    | cons e rest =>
      obtain ⟨r, n, hres, -, hresp⟩ := resolve_cons he control keys
      rw [hres] at h
      cases h
      refine inv_leave hs (n := 1) (by rw [he]; rfl) ?_
      rw [he, Option.bind_some, hresp]
      exact (List.append_nil _).symm
  | expire now =>
    simp only [step] at h
    split_ifs at h with hc
    cases h
    obtain ⟨-, hentries, -⟩ := expire_entries s.queue now
    exact inv_later (inv_leave hs hentries (expireLoop_sent now s.queue.entries)) hc
  | failAll reason =>
    cases h
    refine inv_leave hs (n := s.queue.entries.length) (List.drop_length).symm ?_
    rw [List.take_length]
    exact failAll_sent s.queue reason

/-- In every run: the entries leave in the order in which they were pushed, a
oneshot is used once, when its entry leaves; what a later clock reading lets
expire are the entries that are due by then, the front has the first deadline,
and `failAll` leaves nothing. -/
theorem waiters_once {ls : List Label} {s : Waiters} (h : run (step keys timeout) init ls = some s) :
    s.pushed = s.removed ++ s.queue.entries ∧
      (s.used = senders s.removed ∧ s.used.Nodup ∧ ∀ w ∈ senders s.queue.entries, w ∉ s.used) ∧
      (∀ now s', step keys timeout s (.expire now) = some s' →
        s'.removed = s.removed ++ s.queue.entries.filter (·.deadline ≤ now) ∧
          s'.queue.entries = s.queue.entries.filter (now < ·.deadline)) ∧
      s.queue.nextDeadline = (s.queue.entries.map PendingEntry.deadline).min? ∧
      ∀ reason s', step keys timeout s (.failAll reason) = some s' →
        s'.queue.entries = [] ∧ s'.removed = s'.pushed := by
  have hs : Inv timeout s := run_inv inv_step (inv_init timeout) h
  have hnodup := hs.nodup
  rw [hs.order, senders_append, List.nodup_append, ← hs.used] at hnodup
  refine ⟨hs.order, ⟨hs.used, hnodup.1, fun w hw hu => hnodup.2.2 w hu w hw rfl⟩, fun now s' h' => ?_,
    nextDeadline_eq_min hs.sorted, fun reason s' h' => ?_⟩
  · obtain ⟨htake, hleft⟩ := expireLoop_sorted now hs.sorted
    simp only [step] at h'
    split_ifs at h' with hc
    cases h'
    refine ⟨?_, hleft⟩
    rw [← htake]
    exact removed_leave (expire_entries s.queue now).2.1 ((s.queue.expire now).2.2.map Prod.fst)
  · have hs' : Inv timeout s' := inv_step hs h'
    have hnil : s'.queue.entries = [] := by cases h'; rfl
    refine ⟨hnil, ?_⟩
    rw [hs'.order, hnil, List.append_nil]

/-- Two commands: the first is answered, the second expires. -/
theorem waiters_once_two :
    ∃ s, run (step sampleKeys 10) init
        [.push "jdev/sys/getkey".toList "a".toList (some 0) 0, .push "jdev/cfg/api".toList "b".toList (some 1) 5,
          .resolve none, .expire 15] = some s ∧
      s.pushed = s.removed ++ s.queue.entries ∧ s.queue.entries = [] ∧ s.used = [0, 1] := by
  have hrun : ∃ s, run (step sampleKeys 10) init
      [.push "jdev/sys/getkey".toList "a".toList (some 0) 0, .push "jdev/cfg/api".toList "b".toList (some 1) 5,
        .resolve none, .expire 15] = some s ∧ s.queue.entries = [] ∧ s.used = [0, 1] := ⟨_, rfl, rfl, rfl⟩
  obtain ⟨s, h, hentries, hused⟩ := hrun
  exact ⟨s, h, (waiters_once h).1, hentries, hused⟩

end Waiters

end Lox
