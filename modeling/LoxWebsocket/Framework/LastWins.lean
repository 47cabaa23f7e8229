import Mathlib

/-!
# Maps filled from a list

`fill` inserts the entries of a list into a map, one after the other. What it
holds under a key is the last entry of that key (`getElem?_fill`). Filling a second
map under keys renamed by an injective function gives the same map, renamed
(`Renames.fill`).
-/

namespace Lox

variable {α κ κ' ν : Type} [BEq κ] [Hashable κ] [LawfulBEq κ] [BEq κ'] [Hashable κ'] [LawfulBEq κ']

/-- The entries of a list inserted into a map in turn. -/
def fill (key : α → κ) (value : α → ν) (m : Std.HashMap κ ν) (l : List α) : Std.HashMap κ ν :=
  l.foldl (fun m a => m.insert (key a) (value a)) m

omit [LawfulBEq κ] in
@[simp] theorem fill_nil (key : α → κ) (value : α → ν) (m : Std.HashMap κ ν) : fill key value m [] = m := rfl

omit [LawfulBEq κ] in
@[simp] theorem fill_cons (key : α → κ) (value : α → ν) (m : Std.HashMap κ ν) (a : α) (l : List α) :
    fill key value m (a :: l) = fill key value (m.insert (key a) (value a)) l := rfl

/-- The value of the last entry of a key. -/
def lastValue (key : α → κ) (value : α → ν) (l : List α) (k : κ) : Option ν :=
  (l.reverse.find? fun a => key a == k).map value

omit [Hashable κ] [LawfulBEq κ] in
theorem lastValue_cons (key : α → κ) (value : α → ν) (a : α) (l : List α) (k : κ) :
    lastValue key value (a :: l) k = (lastValue key value l k).or (if key a == k then some (value a) else none) := by
  rw [lastValue, lastValue, List.reverse_cons, List.find?_append, Option.map_or, List.find?_singleton]
  split <;> rfl

/-- A later entry wins. -/
theorem getElem?_fill (key : α → κ) (value : α → ν) (m : Std.HashMap κ ν) (l : List α) (k : κ) :
    (fill key value m l)[k]? = (lastValue key value l k).or m[k]? := by
  induction l generalizing m with
  | nil => rfl
  | cons a l ih =>
    rw [fill_cons, ih, lastValue_cons, Option.or_assoc, Std.HashMap.getElem?_insert]
    split
    · rfl
    · rfl

/-- `m'` is `m` with its keys renamed by `f`. -/
structure Renames (f : κ → κ') (m : Std.HashMap κ ν) (m' : Std.HashMap κ' ν) : Prop where
  size : m'.size = m.size
  lookup : ∀ k, m'[f k]? = m[k]?
  keys : ∀ k' ∈ m', ∃ k ∈ m, k' = f k

theorem renames_empty (f : κ → κ') (n n' : Nat) :
    Renames f (Std.HashMap.emptyWithCapacity n : Std.HashMap κ ν) (Std.HashMap.emptyWithCapacity n') where
  size := by simp
  lookup k := by simp
  keys k' h := by simp at h

theorem Renames.mem_iff {f : κ → κ'} {m : Std.HashMap κ ν} {m' : Std.HashMap κ' ν} (h : Renames f m m') (k : κ) :
    f k ∈ m' ↔ k ∈ m := by
  rw [Std.HashMap.mem_iff_isSome_getElem?, Std.HashMap.mem_iff_isSome_getElem?, h.lookup]

/-- An entry is inserted into both. -/
theorem Renames.insert {f : κ → κ'} (hf : Function.Injective f) {m : Std.HashMap κ ν} {m' : Std.HashMap κ' ν}
    (h : Renames f m m') (k : κ) (v : ν) : Renames f (m.insert k v) (m'.insert (f k) v) where
  size := by
    rw [Std.HashMap.size_insert, Std.HashMap.size_insert, h.size]
    exact if_congr (h.mem_iff k) rfl rfl
  lookup j := by
    have hkey : (f k == f j) = (k == j) := by rw [Bool.eq_iff_iff, beq_iff_eq, beq_iff_eq, hf.eq_iff]
    rw [Std.HashMap.getElem?_insert, Std.HashMap.getElem?_insert, h.lookup, hkey]
  keys k' hk' := by
    rw [Std.HashMap.mem_insert] at hk'
    rcases hk' with heq | hmem
    · exact ⟨k, Std.HashMap.mem_insert_self, (eq_of_beq heq).symm⟩
    · obtain ⟨j, hj, rfl⟩ := h.keys k' hmem
      exact ⟨j, Std.HashMap.mem_insert.mpr (.inr hj), rfl⟩

theorem Renames.fill {f : κ → κ'} (hf : Function.Injective f) (key : α → κ) (value : α → ν) (l : List α)
    {m : Std.HashMap κ ν} {m' : Std.HashMap κ' ν} (h : Renames f m m') :
    Renames f (fill key value m l) (fill (fun a => f (key a)) value m' l) := by
  induction l generalizing m m' with
  | nil => exact h
  | cons a l ih => exact ih (h.insert hf (key a) (value a))

end Lox
