import Mathlib.Data.List.Basic

/-!
# Lists in pieces of one length

`chunks n l` cuts `l` into pieces of `n`; the last one may be shorter. A first piece
of `n` is cut off (`chunks_append`), at most `n` elements are one piece
(`chunks_of_length_le`), and every list is put together from such pieces
(`chunks_induction`). Nothing is lost (`flatten_chunks`), and piece `k` depends on
the elements from `n * k` on, of which it has `n` (`getElem?_chunks`).
-/

namespace Lox

variable {α β : Type} {n : Nat}

def chunks (n : Nat) (l : List α) : List (List α) :=
  (List.range ((l.length + n - 1) / n)).map fun k => (l.drop (n * k)).take n

theorem chunks_nil (hn : 0 < n) : chunks n ([] : List α) = [] := by
  rw [chunks, List.length_nil, Nat.zero_add, Nat.div_eq_of_lt (by omega), List.range_zero, List.map_nil]

theorem chunks_append (hn : 0 < n) {a : List α} (ha : a.length = n) (b : List α) :
    chunks n (a ++ b) = a :: chunks n b := by
  have hcount : ((a ++ b).length + n - 1) / n = (b.length + n - 1) / n + 1 := by
    rw [List.length_append, ha, show n + b.length + n - 1 = b.length + n - 1 + n by omega, Nat.add_div_right _ hn]
  rw [chunks, hcount, List.range_succ_eq_map, List.map_cons, List.map_map, Nat.mul_zero, List.drop_zero,
    List.take_left' ha, chunks]
  refine congrArg (a :: ·) (List.map_congr_left fun k _ => ?_)
  change ((a ++ b).drop (n * (k + 1))).take n = _
  rw [Nat.mul_succ, Nat.add_comm, ← List.drop_drop, List.drop_left' ha]

theorem chunks_of_length_le {a : List α} (hne : a ≠ []) (ha : a.length ≤ n) : chunks n a = [a] := by
  have hpos := List.length_pos_of_ne_nil hne
  have hcount : (a.length + n - 1) / n = 1 := by
    rw [show a.length + n - 1 = a.length - 1 + n by omega, Nat.add_div_right _ (by omega), Nat.div_eq_of_lt (by omega)]
  rw [chunks, hcount, List.range_one, List.map_singleton, Nat.mul_zero, List.drop_zero, List.take_of_length_le ha]

/-- A list is empty, or one piece, or a whole piece in front of another list. -/
theorem chunks_induction {motive : List α → Prop} (hn : 0 < n) (nil : motive [])
    (last : ∀ a, a ≠ [] → a.length ≤ n → motive a)
    (piece : ∀ a b, a.length = n → motive b → motive (a ++ b)) (l : List α) : motive l := by
  induction h : l.length using Nat.strongRecOn generalizing l with
  | ind m ih =>
    by_cases hle : l.length ≤ n
    · by_cases hnil : l = []
      · rwa [hnil]
      · exact last l hnil hle
    · have hrest := ih (l.drop n).length (by rw [List.length_drop]; omega) (l.drop n) rfl
      have hwhole := piece (l.take n) (l.drop n) (by rw [List.length_take]; omega) hrest
      rwa [List.take_append_drop] at hwhole

theorem flatten_chunks (hn : 0 < n) (l : List α) : (chunks n l).flatten = l := by
  induction l using chunks_induction hn with
  | nil => rw [chunks_nil hn, List.flatten_nil]
  | last a hne ha => rw [chunks_of_length_le hne ha, List.flatten_singleton]
  | piece a b ha ih => rw [chunks_append hn ha, List.flatten_cons, ih]

theorem length_le_of_mem_chunks {l c : List α} (h : c ∈ chunks n l) : c.length ≤ n := by
  obtain ⟨k, -, rfl⟩ := List.mem_map.mp h
  exact List.length_take_le n _

theorem mem_of_mem_chunks {l c : List α} (h : c ∈ chunks n l) {x : α} (hx : x ∈ c) : x ∈ l := by
  obtain ⟨k, -, rfl⟩ := List.mem_map.mp h
  exact List.mem_of_mem_drop (List.mem_of_mem_take hx)

theorem chunks_map (f : α → β) (l : List α) : chunks n (l.map f) = (chunks n l).map (List.map f) := by
  rw [chunks, chunks, List.length_map, List.map_map]
  refine List.map_congr_left fun k _ => ?_
  rw [Function.comp_apply, List.map_take, List.map_drop]

theorem getElem?_chunks (l : List α) (k : Nat) : (chunks n l)[k]? =
    if k < (l.length + n - 1) / n then some ((l.drop (n * k)).take n) else none := by
  rw [chunks, List.getElem?_map]
  split_ifs with h
  · rw [List.getElem?_range h, Option.map_some]
  · rw [List.getElem?_eq_none (by rw [List.length_range]; omega), Option.map_none]

end Lox
