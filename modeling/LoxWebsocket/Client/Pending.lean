import LoxWebsocket.Client.Control

/-!
# The queue of outstanding commands

`PendingQueue` is the FIFO of commands that await their answer. A oneshot
sender is the number of its channel (`Waiter`), and what is sent on it is a
`Delivery`. What each operation does to the entries is stated once:
`entries_push`, `entries_resolve` with `resp_resolve`, and `expire_entries`.
-/

namespace Lox

/-- A oneshot channel. -/
abbrev Waiter := Nat

abbrev Instant := Nat

/-- What was sent on a oneshot. -/
abbrev Delivery := Waiter × Except Error Bytes

/-- One command awaiting its type-0 answer. -/
structure PendingEntry where
  plaintextCmd : Str
  wireCmd : Str
  /-- `none` for fire-and-forget commands that still need a queue slot. -/
  resp : Option Waiter
  deadline : Instant
  deriving DecidableEq

structure Resolved where
  plaintextCmd : Str
  resp : Option Waiter
  matched : Bool
  actual : Option Str

structure PendingQueue where
  entries : List PendingEntry
  mismatches : Nat
  unsolicited : Nat
  timeouts : Nat
  deriving DecidableEq

namespace PendingQueue

def new : PendingQueue := ⟨[], 0, 0, 0⟩

/-- Deadline of the oldest waiter. -/
def nextDeadline (q : PendingQueue) : Option Instant := q.entries.head?.map PendingEntry.deadline

def push (q : PendingQueue) (plaintextCmd wireCmd : Str) (resp : Option Waiter) (deadline : Instant) :
    PendingQueue :=
  { q with entries := q.entries ++ [⟨plaintextCmd, wireCmd, resp, deadline⟩] }

variable {C : Crates}

/-- Pop the oldest waiter for an incoming answer whose control field is
`control`. A mismatch is counted, but the entry is resolved all the same. -/
def resolve (q : PendingQueue) (control : Option Str) (keys : SessionKeys C) :
    Option Resolved × PendingQueue :=
  match q.entries with
  | [] => (none, q)
  | entry :: rest =>
    let q := { q with entries := rest }
    match control with
    | none => (some ⟨entry.plaintextCmd, entry.resp, true, none⟩, q)
    | some ctrl =>
      if canonical ctrl = canonical entry.wireCmd then
        (some ⟨entry.plaintextCmd, entry.resp, true, none⟩, q)
      else
        let decoded := decodeControl ctrl keys
        let ok := decoded.any fun plain => controlMatches plain entry.plaintextCmd
        (some ⟨entry.plaintextCmd, entry.resp, ok, decoded⟩,
          if ok then q else { q with mismatches := q.mismatches + 1 })

/-- Record a type-0 answer that had no waiter. -/
def noteUnsolicited (q : PendingQueue) : PendingQueue := { q with unsolicited := q.unsolicited + 1 }

/-- Fail the entries at the front whose deadline has passed: how many, what is
left, and what is sent. -/
def expireLoop (now : Instant) : List PendingEntry → Nat × List PendingEntry × List Delivery
  | [] => (0, [], [])
  | front :: rest =>
    if front.deadline > now then (0, front :: rest, [])
    else
      let (expired, left, sent) := expireLoop now rest
      (expired + 1, left, (front.resp.toList.map fun w =>
        (w, .error (.timeout ("no response to ".toList ++ cmdLabel front.plaintextCmd)))) ++ sent)

def expire (q : PendingQueue) (now : Instant) : Nat × PendingQueue × List Delivery :=
  let (expired, left, sent) := expireLoop now q.entries
  (expired, { q with entries := left, timeouts := q.timeouts + expired }, sent)

/-- Fail and drop every entry. -/
def failAll (q : PendingQueue) (reason : Str) : Nat × PendingQueue × List Delivery :=
  (q.entries.length, { q with entries := [] },
    q.entries.flatMap fun entry => entry.resp.toList.map fun w => (w, .error (.closed reason)))

/-! ## What the operations do -/

@[simp] theorem entries_push (q : PendingQueue) (plaintextCmd wireCmd : Str) (resp : Option Waiter)
    (deadline : Instant) : (q.push plaintextCmd wireCmd resp deadline).entries =
      q.entries ++ [⟨plaintextCmd, wireCmd, resp, deadline⟩] := rfl

@[simp] theorem timeouts_push (q : PendingQueue) (plaintextCmd wireCmd : Str) (resp : Option Waiter)
    (deadline : Instant) : (q.push plaintextCmd wireCmd resp deadline).timeouts = q.timeouts := rfl

@[simp] theorem unsolicited_push (q : PendingQueue) (plaintextCmd wireCmd : Str) (resp : Option Waiter)
    (deadline : Instant) : (q.push plaintextCmd wireCmd resp deadline).unsolicited = q.unsolicited := rfl

/-- An answer that finds no waiter changes nothing. -/
theorem resolve_nil {q : PendingQueue} (h : q.entries = []) (control : Option Str)
    (keys : SessionKeys C) : q.resolve control keys = (none, q) := by
  rw [resolve, h]

/-- An answer resolves the front entry, whatever its control field says. -/
theorem resolve_cons {q : PendingQueue} {entry : PendingEntry} {rest : List PendingEntry}
    (h : q.entries = entry :: rest) (control : Option Str) (keys : SessionKeys C) :
    ∃ r n, q.resolve control keys = (some r, ⟨rest, n, q.unsolicited, q.timeouts⟩) ∧
      r.plaintextCmd = entry.plaintextCmd ∧ r.resp = entry.resp := by
  rw [resolve, h]
  cases control with
  | none => exact ⟨_, _, rfl, rfl, rfl⟩
  | some ctrl =>
    simp only
    split
    · exact ⟨_, _, rfl, rfl, rfl⟩
    · generalize Option.any _ (decodeControl ctrl keys) = ok
      cases ok with
      | false => exact ⟨_, _, rfl, rfl, rfl⟩
      | true => exact ⟨_, _, rfl, rfl, rfl⟩

theorem expireLoop_spec (now : Instant) (l : List PendingEntry) :
    (expireLoop now l).1 ≤ l.length ∧ (expireLoop now l).2.1 = l.drop (expireLoop now l).1 := by
  induction l with
  | nil => exact ⟨Nat.le_refl _, rfl⟩
  | cons front rest ih =>
    rw [expireLoop]
    split
    · exact ⟨Nat.zero_le _, rfl⟩
    · exact ⟨Nat.succ_le_succ ih.1, ih.2⟩

/-- Expiry takes entries off the front, and counts them. -/
theorem expire_entries (q : PendingQueue) (now : Instant) :
    (q.expire now).1 ≤ q.entries.length ∧
    (q.expire now).2.1.entries = q.entries.drop (q.expire now).1 ∧
    (q.expire now).2.1.timeouts = q.timeouts + (q.expire now).1 :=
  ⟨(expireLoop_spec now q.entries).1, (expireLoop_spec now q.entries).2, rfl⟩

/-- The oneshots of entries. -/
def senders (l : List PendingEntry) : List Waiter := l.flatMap fun e => e.resp.toList

@[simp] theorem senders_nil : senders [] = [] := rfl

@[simp] theorem senders_cons (e : PendingEntry) (l : List PendingEntry) :
    senders (e :: l) = e.resp.toList ++ senders l := List.flatMap_cons

@[simp] theorem senders_append (l l' : List PendingEntry) : senders (l ++ l') = senders l ++ senders l' :=
  List.flatMap_append

/-- The oneshots of the entries that expire are used, in their order. -/
theorem expireLoop_sent (now : Instant) (l : List PendingEntry) :
    (expireLoop now l).2.2.map Prod.fst = senders (l.take (expireLoop now l).1) := by
  induction l with
  | nil => rfl
  | cons front rest ih =>
    rw [expireLoop]
    split
    · rfl
    · simp only [List.map_append, List.map_map, ih, List.take_succ_cons, senders_cons]
      exact congrArg (· ++ _) (List.map_id _)

/-- The entries are in the order of their deadlines. -/
def Sorted (l : List PendingEntry) : Prop := l.Pairwise fun e e' => e.deadline ≤ e'.deadline

/-- In the order of deadlines, those that expire are all that are due. -/
theorem expireLoop_sorted (now : Instant) {l : List PendingEntry} (h : Sorted l) :
    l.take (expireLoop now l).1 = l.filter (·.deadline ≤ now) ∧
      (expireLoop now l).2.1 = l.filter (now < ·.deadline) := by
  induction l with
  | nil => exact ⟨rfl, rfl⟩
  | cons front rest ih =>
    obtain ⟨hle, hrest⟩ := List.pairwise_cons.mp h
    rw [expireLoop]
    split
    · rename_i hlate
      -- the front is not due, so nothing after it is
      have hall : ∀ e ∈ front :: rest, now < e.deadline := by
        intro e he
        rcases List.mem_cons.mp he with rfl | he
        · exact hlate
        · exact Nat.lt_of_lt_of_le hlate (hle e he)
      refine ⟨(List.filter_eq_nil_iff.mpr fun e he => ?_).symm, (List.filter_eq_self.mpr fun e he => ?_).symm⟩
      · simpa using hall e he
      · simpa using hall e he
    · rename_i hdue
      obtain ⟨htake, hleft⟩ := ih hrest
      have hdue : front.deadline ≤ now := Nat.le_of_not_lt hdue
      simp only [List.take_succ_cons, List.filter_cons, hdue, Nat.not_lt.mpr hdue, decide_true, decide_false,
        if_true, Bool.false_eq_true, if_false, htake, hleft, and_self]

theorem failAll_sent (q : PendingQueue) (reason : Str) :
    (q.failAll reason).2.2.map Prod.fst = senders q.entries := by
  simp only [failAll, List.map_flatMap, List.map_map, senders]
  exact List.flatMap_congr fun e _ => List.map_id _

/-- The front has the first deadline. -/
theorem nextDeadline_eq_min {q : PendingQueue} (h : Sorted q.entries) :
    q.nextDeadline = (q.entries.map PendingEntry.deadline).min? := by
  unfold nextDeadline
  cases he : q.entries with
  | nil => rfl
  | cons front rest =>
    rw [he] at h
    refine (List.min?_eq_some_iff.mpr ⟨List.mem_cons_self, fun d hd => ?_⟩).symm
    rcases List.mem_cons.mp hd with rfl | hd
    · exact Nat.le_refl _
    · obtain ⟨e, hm, rfl⟩ := List.mem_map.mp hd
      exact (List.pairwise_cons.mp h).1 e hm

/-- Before the deadlines of all entries nothing expires. -/
theorem expire_none {q : PendingQueue} {now : Instant} (h : ∀ e ∈ q.entries, now < e.deadline) :
    q.expire now = (0, q, []) := by
  have hloop : expireLoop now q.entries = (0, q.entries, []) := by
    cases he : q.entries with
    | nil => rfl
    | cons front rest => rw [expireLoop, if_pos (h front (he ▸ List.mem_cons_self))]
  simp only [expire, hloop, Nat.add_zero]

end PendingQueue

end Lox
