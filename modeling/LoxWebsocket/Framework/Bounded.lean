import Mathlib.Data.List.Basic

/-!
# Bounded queues

A producer that must not wait puts elements into a queue of fixed capacity, and
one that does not fit is lost; a consumer takes them from the front, and may
close the queue. `sendAll` is a run of the producer, the consumer moving before
each element (`Turns`).

What the consumer has and what waits for it are some of the elements in their
order, and the others are counted (`sendAll_spec`); none is lost if and only if
each one finds room (`sendAll_lost_eq_zero_iff`).
-/

namespace Lox

structure Bounded (α : Type) where
  capacity : Nat
  queue : List α
  closed : Bool
  /-- What the consumer has taken. -/
  received : List α

namespace Bounded

variable {α : Type}

def new (capacity : Nat) : Bounded α := ⟨capacity, [], false, []⟩

/-- Whether an element is accepted. -/
def accepts (q : Bounded α) : Bool := !q.closed && decide (q.queue.length < q.capacity)

def trySend (a : α) (q : Bounded α) : Bool × Bounded α :=
  if q.accepts then (true, { q with queue := q.queue ++ [a] }) else (false, q)

inductive Move
  | recv
  | close

def move (q : Bounded α) : Move → Bounded α
  | .recv =>
    match q.queue with
    | [] => q
    | a :: queue => { q with queue, received := q.received ++ [a] }
  | .close => { q with closed := true }

def moves (q : Bounded α) (turn : List Move) : Bounded α := turn.foldl move q

/-- The elements that were accepted. -/
def accepted (q : Bounded α) : List α := q.received ++ q.queue

/-- What the consumer does before each element that is sent. -/
abbrev Turns := Nat → List Move

/-- The turns after the first. -/
def Turns.later (turns : Turns) : Turns := fun n => turns (n + 1)

/-- The producer sends all, the consumer moving before each; with the number of
elements lost. -/
def sendAll : Turns → List α → Bounded α → Nat × Bounded α
  | _, [], q => (0, q)
  | turns, a :: as, q =>
    match trySend a (q.moves (turns 0)) with
    | (true, q) => sendAll turns.later as q
    | (false, q) => ((sendAll turns.later as q).1 + 1, (sendAll turns.later as q).2)

/-- Every element finds room. -/
def KeepsUp : Turns → List α → Bounded α → Prop
  | _, [], _ => True
  | turns, a :: as, q =>
    (q.moves (turns 0)).accepts = true ∧ KeepsUp turns.later as (trySend a (q.moves (turns 0))).2

theorem move_spec (q : Bounded α) (m : Move) : (q.move m).accepted = q.accepted ∧
    (q.move m).capacity = q.capacity ∧ (q.move m).queue.length ≤ q.queue.length := by
  cases m with
  | close => exact ⟨rfl, rfl, Nat.le_refl _⟩
  | recv =>
    unfold move accepted
    cases hq : q.queue with
    | nil => exact ⟨by rw [hq], rfl, Nat.le_of_eq (congrArg List.length hq)⟩
    | cons a queue =>
      refine ⟨?_, rfl, Nat.le_succ _⟩
      simp only [List.append_assoc, List.singleton_append]

theorem moves_spec (q : Bounded α) (turn : List Move) : (q.moves turn).accepted = q.accepted ∧
    (q.moves turn).capacity = q.capacity ∧ (q.moves turn).queue.length ≤ q.queue.length := by
  induction turn generalizing q with
  | nil => exact ⟨rfl, rfl, Nat.le_refl _⟩
  | cons m turn ih =>
    obtain ⟨ha, hc, hl⟩ := q.move_spec m
    obtain ⟨ha', hc', hl'⟩ := ih (q.move m)
    exact ⟨ha'.trans ha, hc'.trans hc, Nat.le_trans hl' hl⟩

theorem trySend_accepted {q : Bounded α} (h : q.accepts = true) (a : α) :
    trySend a q = (true, { q with queue := q.queue ++ [a] }) := if_pos h

theorem trySend_refused {q : Bounded α} (h : q.accepts = false) (a : α) : trySend a q = (false, q) :=
  if_neg (by rw [h]; exact Bool.false_ne_true)

/-- The accepted elements are some of those sent, in their order; the queue keeps
to its capacity; and the others have been counted. -/
theorem sendAll_spec (turns : Turns) (as : List α) (q : Bounded α) (hq : q.queue.length ≤ q.capacity) :
    ∃ kept : List α, kept.Sublist as ∧ (sendAll turns as q).2.accepted = q.accepted ++ kept ∧
      (sendAll turns as q).2.queue.length ≤ q.capacity ∧ as.length = kept.length + (sendAll turns as q).1 := by
  induction as generalizing turns q with
  | nil => exact ⟨[], List.Sublist.refl _, (List.append_nil _).symm, hq, rfl⟩
  | cons a as ih =>
    obtain ⟨ha, hc, hl⟩ := q.moves_spec (turns 0)
    have hle : (q.moves (turns 0)).queue.length ≤ (q.moves (turns 0)).capacity := by
      rw [hc]
      exact Nat.le_trans hl hq
    unfold sendAll
    cases hroom : (q.moves (turns 0)).accepts with
    | true =>
      rw [trySend_accepted hroom]
      have hlt : (q.moves (turns 0)).queue.length < q.capacity := by
        rw [← hc]
        exact of_decide_eq_true (Bool.and_eq_true_iff.mp hroom).2
      obtain ⟨kept, hkept, haccepted, hqueue, hcount⟩ := ih turns.later
        { q.moves (turns 0) with queue := (q.moves (turns 0)).queue ++ [a] }
        (by rw [List.length_append, hc]; exact hlt)
      refine ⟨a :: kept, hkept.cons_cons a, ?_, hc ▸ hqueue, ?_⟩
      · rw [haccepted, ← ha, accepted, accepted]
        simp only [List.append_assoc, List.singleton_append]
      · rw [List.length_cons, List.length_cons, hcount, Nat.add_right_comm]
    | false =>
      rw [trySend_refused hroom]
      obtain ⟨kept, hkept, haccepted, hqueue, hcount⟩ := ih turns.later (q.moves (turns 0)) hle
      refine ⟨kept, hkept.cons a, ha ▸ haccepted, hc ▸ hqueue, ?_⟩
      rw [List.length_cons, hcount, Nat.add_assoc]

theorem sendAll_lost_eq_zero_iff (turns : Turns) (as : List α) (q : Bounded α) :
    (sendAll turns as q).1 = 0 ↔ KeepsUp turns as q := by
  induction as generalizing turns q with
  | nil => exact iff_of_true rfl trivial
  | cons a as ih =>
    unfold sendAll KeepsUp
    cases hroom : (q.moves (turns 0)).accepts with
    | true =>
      rw [trySend_accepted hroom]
      exact (ih _ _).trans ⟨fun h => ⟨rfl, h⟩, fun h => h.2⟩
    | false =>
      rw [trySend_refused hroom]
      exact iff_of_false (Nat.succ_ne_zero _) fun h => Bool.false_ne_true h.1

/-- A consumer that takes an element whenever there is one. -/
theorem keepsUp_eager (as : List α) {q : Bounded α} (hopen : q.closed = false) (hcapacity : 0 < q.capacity)
    (hq : q.queue.length ≤ 1) : KeepsUp (fun _ => [.recv]) as q := by
  induction as generalizing q with
  | nil => trivial
  | cons a as ih =>
    have hmoved : (q.moves [.recv]).queue = [] ∧ (q.moves [.recv]).closed = false ∧
        (q.moves [.recv]).capacity = q.capacity := by
      unfold moves
      simp only [List.foldl_cons, List.foldl_nil, move]
      split
      · rename_i hnil
        exact ⟨hnil, hopen, rfl⟩
      · rename_i b queue hcons
        rw [hcons] at hq
        exact ⟨List.length_eq_zero_iff.mp (Nat.le_zero.mp (Nat.le_of_succ_le_succ hq)), hopen, rfl⟩
    obtain ⟨hqueue, hclosed, hcap⟩ := hmoved
    have hroom : (q.moves [.recv]).accepts = true := by
      rw [accepts, hqueue, hclosed, hcap]
      exact decide_eq_true hcapacity
    unfold KeepsUp
    rw [trySend_accepted hroom]
    refine ⟨hroom, ih hclosed (hcap ▸ hcapacity) ?_⟩
    rw [hqueue]
    exact Nat.le_refl _

end Bounded

end Lox
