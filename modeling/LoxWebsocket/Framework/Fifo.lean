import Mathlib.Data.List.Basic

/-!
# Requests answered in order, matched by position

Requests are issued in an order and answered in that order; a queue holds the
requests that wait, and an answer goes to the request at its front. A request
may leave the front of the queue without its answer (it gave up), and an
answer that finds the queue empty goes to nobody.

`Fifo` keeps how many requests have left the queue and how many answers have
come: the queue is the issued requests from `removed` on (`queue`), and the
next answer is the one to request number `answered`. The two differ by `lag`;
without lag an answer goes to its own request (`head?_queue_of_lag`), and only
giving up can bring a lag about (`lag_answer`, `lag_giveUp`).
-/

namespace Lox

/-- What a list has at an index, a longer one has there too. -/
theorem getElem?_eq_of_extends {α : Type} {l m : List α} (h : l <+: m) {i : Nat} (hi : i < l.length) :
    m[i]? = l[i]? := by
  obtain ⟨rest, rfl⟩ := h
  exact List.getElem?_append_left hi

theorem getElem?_of_extends {α : Type} {l m : List α} (h : l <+: m) {i : Nat} {a : α} (ha : l[i]? = some a) :
    m[i]? = some a :=
  (getElem?_eq_of_extends h (List.getElem?_eq_some_iff.mp ha).1).trans ha

/-- Requests in the order they were issued, of which the first `removed` have
left the queue and the first `answered` have been answered. -/
structure Fifo (α : Type) where
  issued : List α
  removed : Nat
  answered : Nat
  answered_le : answered ≤ removed
  removed_le : removed ≤ issued.length

namespace Fifo

variable {α : Type}

def empty : Fifo α := ⟨[], 0, 0, Nat.le_refl _, Nat.zero_le _⟩

/-- The requests that wait, the oldest first. -/
def queue (f : Fifo α) : List α := f.issued.drop f.removed

/-- The answers still to come. -/
def owed (f : Fifo α) : Nat := f.issued.length - f.answered

/-- How far the front of the queue is ahead of the next answer. -/
def lag (f : Fifo α) : Nat := f.removed - f.answered

@[simp] theorem length_queue (f : Fifo α) : f.queue.length = f.issued.length - f.removed := by
  simp [queue]

theorem lag_eq_zero_iff (f : Fifo α) : f.lag = 0 ↔ f.removed = f.answered := by
  have := f.answered_le
  simp only [lag]; omega

/-- No lag: no more answers are owed than requests wait. -/
theorem lag_eq_zero_iff_owed (f : Fifo α) : f.lag = 0 ↔ f.owed ≤ f.queue.length := by
  have := f.answered_le; have := f.removed_le
  simp only [lag, owed, length_queue]; omega

/-- The request an answer goes to. -/
theorem head?_queue (f : Fifo α) : f.queue.head? = f.issued[f.removed]? := by
  simp [queue, List.head?_drop]

/-! ## Steps -/

def issue (f : Fifo α) (x : α) : Fifo α :=
  ⟨f.issued ++ [x], f.removed, f.answered, f.answered_le, by
    have := f.removed_le
    rw [List.length_append]; omega⟩

/-- The first `k` requests of the queue leave it unanswered. -/
def giveUp (f : Fifo α) (k : Nat) (h : k ≤ f.queue.length) : Fifo α :=
  ⟨f.issued, f.removed + k, f.answered, Nat.le_add_right_of_le f.answered_le, by
    have := f.removed_le
    rw [length_queue] at h; omega⟩

/-- The next answer comes: the front of the queue, if there is one, leaves it. -/
def answer (f : Fifo α) (h : f.answered < f.issued.length) : Fifo α :=
  ⟨f.issued, min (f.removed + 1) f.issued.length, f.answered + 1, by
    have := f.answered_le
    omega, Nat.min_le_right _ _⟩

@[simp] theorem queue_issue (f : Fifo α) (x : α) : (f.issue x).queue = f.queue ++ [x] := by
  simp only [issue, queue]
  rw [List.drop_append_of_le_length f.removed_le]

@[simp] theorem queue_giveUp (f : Fifo α) (k : Nat) (h : k ≤ f.queue.length) :
    (f.giveUp k h).queue = f.queue.drop k := by
  simp only [giveUp, queue, List.drop_drop]

@[simp] theorem queue_answer (f : Fifo α) (h : f.answered < f.issued.length) :
    (f.answer h).queue = f.queue.tail := by
  have := f.removed_le
  simp only [answer, queue, List.tail_drop]
  rcases Nat.lt_or_ge f.removed f.issued.length with hr | hr
  · rw [Nat.min_eq_left hr]
  · rw [Nat.min_eq_right (by omega), List.drop_eq_nil_of_le (Nat.le_refl _),
      List.drop_eq_nil_of_le (by omega)]

theorem lag_giveUp (f : Fifo α) (k : Nat) (h : k ≤ f.queue.length) :
    (f.giveUp k h).lag = f.lag + k := by
  have := f.answered_le
  simp only [giveUp, lag]; omega

/-- An answer keeps a lag of zero. -/
theorem lag_answer (f : Fifo α) (h : f.answered < f.issued.length) (h0 : f.lag = 0) :
    (f.answer h).lag = 0 := by
  have := f.answered_le
  simp only [answer, lag] at h0 ⊢; omega

/-- Without lag the answer that comes is that of the front of the queue. -/
theorem head?_queue_of_lag {f : Fifo α} (h : f.lag = 0) : f.queue.head? = f.issued[f.answered]? := by
  rw [head?_queue, (f.lag_eq_zero_iff).mp h]

end Fifo

end Lox
