import LoxWebsocket.Framework.Search

/-!
# Words between fences

A marker is a word between two fences of one element (`fenced`), and the word itself
does not contain that element (`Core`). Two markers of a text may share elements of a
fence, but nothing else (`fenced_cases`): one ends in the other's first fence, or they
are the same, or it starts in the other's last fence.

So the word of one marker can be exchanged for another word without making or losing
other markers: they stay where they are or are moved along (`MarkAt.exchange`), and what
only depends on their order is kept by `replaceAll`: whether a marker of one class is
begun before the first one of another class ends (`crossed_replaceAll`), and whether
every marker of a word has one of another word before it (`preceded_replaceAll`). A
marker that `replaceAll` has left over has one that it has put in before it
(`preceded_of_replaceAll`).
-/

namespace Lox

variable {α : Type} {d : α} {n : Nat}

section

variable (d n)

def fence : List α := List.replicate n d

def fenced (X : List α) : List α := fence d n ++ (X ++ fence d n)

/-- A word that is not empty, and in which no fence starts. -/
structure Core (X : List α) : Prop where
  ne_nil : X ≠ []
  free : d ∉ X

theorem length_fence : (fence d n).length = n := List.length_replicate

theorem length_fenced (X : List α) : (fenced d n X).length = 2 * n + X.length := by
  rw [fenced, List.length_append, List.length_append, length_fence]
  omega

end

theorem Core.length_pos {X : List α} (h : Core d X) : 0 < X.length := List.length_pos_of_ne_nil h.ne_nil

theorem fenced_ne_nil {X : List α} (h : Core d X) : fenced d n X ≠ [] := by
  have := h.length_pos
  exact List.ne_nil_of_length_pos (by rw [length_fenced]; omega)

/-! ## Two markers in one text -/

theorem getElem?_of_front {l T : List α} (h : l <+: T) {i : Nat} (hi : i < l.length) : T[i]? = l[i]? := by
  obtain ⟨t, rfl⟩ := h
  exact List.getElem?_append_left hi

theorem fence_front {u X T : List α} (h : u ++ fenced d n X <+: T) : u ++ fence d n <+: T := by
  rw [fenced, ← List.append_assoc] at h
  exact (List.prefix_append _ _).trans h

/-- A marker is longer than its fences. -/
theorem length_lt_of_fenced {u X T : List α} (hX : Core d X) (h : u ++ fenced d n X <+: T) : 2 * n < T.length := by
  have hlen := h.length_le
  have hpos := hX.length_pos
  rw [List.length_append, length_fenced] at hlen
  omega

/-- The elements of the first fence of a marker. -/
theorem getElem?_fence {u X T : List α} (h : u ++ fenced d n X <+: T) {i : Nat} (hi : i < n) :
    T[u.length + i]? = some d := by
  have hu := fence_front h
  rw [getElem?_of_front hu (by rw [List.length_append, length_fence]; omega), List.getElem?_append_right (by omega),
    Nat.add_sub_cancel_left, fence, List.getElem?_replicate, if_pos hi]

/-- The elements of the word of a marker. -/
theorem getElem?_core {u X T : List α} (hX : Core d X) (h : u ++ fenced d n X <+: T) {i : Nat} (hi : i < X.length) :
    T[u.length + n + i]? ≠ some d := by
  have hu : (u ++ fence d n) ++ X <+: T := by
    rw [fenced, ← List.append_assoc, ← List.append_assoc] at h
    exact (List.prefix_append _ _).trans h
  have hlen : (u ++ fence d n).length = u.length + n := by rw [List.length_append, length_fence]
  rw [getElem?_of_front hu (by rw [List.length_append, hlen]; omega), List.getElem?_append_right (by omega), hlen,
    Nat.add_sub_cancel_left]
  exact fun hd => hX.free (List.mem_of_getElem? hd)

/-- A marker that is begun before another one ends in the first fence of that one. -/
theorem fenced_before (hn : 0 < n) {u p X Z T : List α} (hZ : Core d Z)
    (hu : u ++ fenced d n Z <+: T) (hp : p ++ fenced d n X <+: T) (hlt : u.length < p.length) :
    u.length + n + Z.length ≤ p.length := by
  by_contra hle
  by_cases hin : p.length < u.length + n
  · -- the first element of the word of `Z` is in a fence
    have hd := getElem?_fence hp (i := u.length + n - p.length) (by omega)
    rw [show p.length + (u.length + n - p.length) = u.length + n + 0 by omega] at hd
    exact getElem?_core hZ hu hZ.length_pos hd
  · -- the first element of the fence of `X` is in the word of `Z`
    have hd := getElem?_fence hp hn
    rw [show p.length + 0 = u.length + n + (p.length - u.length - n) by omega] at hd
    exact getElem?_core hZ hu (by omega) hd

/-- A word is what comes before the fence. -/
theorem core_unique (hn : 0 < n) {X Z R : List α} (hX : Core d X) (hZ : Core d Z) (hx : X ++ fence d n <+: R)
    (hz : Z ++ fence d n <+: R) : Z = X := by
  have hend {Y : List α} (hy : Y ++ fence d n <+: R) : R[Y.length]? = some d := by
    have hlt : Y.length < (Y ++ fence d n).length := by
      rw [List.length_append, length_fence]
      omega
    rw [getElem?_of_front hy hlt, List.getElem?_append_right (Nat.le_refl _), Nat.sub_self, fence,
      List.getElem?_replicate, if_pos hn]
  have hin {Y : List α} (hy : Y ++ fence d n <+: R) (hY : Core d Y) {i : Nat} (hi : i < Y.length) : R[i]? ≠ some d := by
    rw [getElem?_of_front ((List.prefix_append _ _).trans hy) hi]
    exact fun hd => hY.free (List.mem_of_getElem? hd)
  have hlen : Z.length = X.length := by
    rcases Nat.lt_trichotomy Z.length X.length with hlt | heq | hgt
    · exact absurd (hend hz) (hin hx hX hlt)
    · exact heq
    · exact absurd (hend hx) (hin hz hZ hgt)
  exact (List.prefix_of_prefix_length_le ((List.prefix_append _ _).trans hz) ((List.prefix_append _ _).trans hx)
    (Nat.le_of_eq hlen)).eq_of_length hlen

/-- Where a marker can be, in a text with another one. -/
theorem fenced_cases (hn : 0 < n) {u p q X Z : List α} (hX : Core d X) (hZ : Core d Z)
    (hu : u ++ fenced d n Z <+: p ++ (fenced d n X ++ q)) :
    u ++ fenced d n Z <+: p ++ fence d n ∨ (u = p ∧ Z = X) ∨
      ∃ t, u = p ++ (fence d n ++ (X ++ t)) ∧ t ++ fenced d n Z <+: fence d n ++ q := by
  have hp : p ++ fenced d n X <+: p ++ (fenced d n X ++ q) := by
    rw [← List.append_assoc]
    exact List.prefix_append _ _
  have hu' := (List.prefix_append u _).trans hu
  rcases Nat.lt_trichotomy u.length p.length with hlt | heq | hgt
  · refine .inl (List.prefix_of_prefix_length_le hu (fence_front hp) ?_)
    have hle := fenced_before hn hZ hu hp hlt
    rw [List.length_append, List.length_append, length_fenced, length_fence]
    omega
  · have hup : u = p :=
      (List.prefix_of_prefix_length_le hu' (List.prefix_append p _) (Nat.le_of_eq heq)).eq_of_length heq
    subst hup
    refine .inr (.inl ⟨rfl, ?_⟩)
    rw [List.prefix_append_right_inj] at hu hp
    have hword {Y : List α} (hy : fenced d n Y <+: fenced d n X ++ q) : Y ++ fence d n <+: X ++ (fence d n ++ q) := by
      rw [fenced, fenced, List.append_assoc, List.append_assoc, List.prefix_append_right_inj] at hy
      exact hy
    exact core_unique hn hX hZ (hword hp) (hword hu)
  · -- the word of `X` ends before `u` does
    have hle := fenced_before hn hX hp hu hgt
    have hword : p ++ (fence d n ++ X) <+: p ++ (fenced d n X ++ q) := by
      rw [fenced, List.append_assoc, List.append_assoc, List.prefix_append_right_inj, List.prefix_append_right_inj]
      exact List.prefix_append _ _
    obtain ⟨t, rfl⟩ := List.prefix_of_prefix_length_le hword hu' (by
      rw [List.length_append, List.length_append, length_fence]
      omega)
    refine .inr (.inr ⟨t, by simp only [List.append_assoc], ?_⟩)
    rw [fenced.eq_def d n X] at hu
    simp only [List.append_assoc, List.prefix_append_right_inj] at hu
    exact hu

/-! ## A text between two markers -/

/-- Behind the first of two markers. -/
theorem fenced_second (hn : 0 < n) {u X A R : List α} (hX : Core d X) (hA : Core d A)
    (h : u ++ fenced d n X <+: fenced d n A ++ R) :
    (u = [] ∧ X = A) ∨ ∃ t, u = fence d n ++ (A ++ t) ∧ t ++ fenced d n X <+: fence d n ++ R := by
  rcases fenced_cases (u := u) (p := []) (q := R) hn hA hX h with hleft | hsame | hright
  · have hlen := length_lt_of_fenced hX hleft
    rw [List.nil_append, length_fence] at hlen
    omega
  · exact .inl hsame
  · exact .inr hright

theorem fenced_alone (hn : 0 < n) {u X C : List α} (hX : Core d X) (hC : Core d C)
    (h : u ++ fenced d n X <+: fenced d n C) : u = [] ∧ X = C := by
  rcases fenced_second (R := []) hn hX hC (by rwa [List.append_nil]) with hsame | ⟨t, -, ht⟩
  · exact hsame
  · have hlen := length_lt_of_fenced hX ht
    rw [List.append_nil, length_fence] at hlen
    omega

/-- Between two markers, a text without elements of a fence is itself the only other word
that a marker can have. -/
theorem fenced_pair_cases (hn : 0 < n) {u X A m C : List α} (hX : Core d X) (hA : Core d A) (hC : Core d C) (hm : d ∉ m)
    (h : u ++ fenced d n X <+: fenced d n A ++ (m ++ fenced d n C)) :
    (u = [] ∧ X = A) ∨ (u = fence d n ++ A ∧ X = m) ∨ (u = fenced d n A ++ m ∧ X = C) := by
  rcases fenced_second hn hX hA h with hfirst | ⟨t, rfl, ht⟩
  · exact .inl hfirst
  · by_cases hnil : m = []
    · subst hnil
      have hcases := fenced_cases (u := t) (p := fence d n) (q := []) hn hC hX (by rwa [List.append_nil])
      rcases hcases with hleft | ⟨rfl, rfl⟩ | ⟨t', -, ht'⟩
      · -- all of it is fence
        obtain ⟨x, hx⟩ := List.exists_mem_of_ne_nil X hX.ne_nil
        have hmem : x ∈ fence d n ++ fence d n := hleft.subset (by simp [fenced, hx])
        rw [List.mem_append, or_self, fence] at hmem
        exact absurd (List.eq_of_mem_replicate hmem ▸ hx) hX.free
      · exact .inr (.inr ⟨by rw [List.append_nil]; rfl, rfl⟩)
      · have hlen := length_lt_of_fenced hX ht'
        rw [List.append_nil, length_fence] at hlen
        omega
    · have hword : fence d n ++ (m ++ fenced d n C) = fenced d n m ++ (C ++ fence d n) := by
        simp only [fenced, List.append_assoc]
      rw [hword] at ht
      rcases fenced_second hn hX ⟨hnil, hm⟩ ht with ⟨rfl, rfl⟩ | ⟨t', rfl, ht'⟩
      · exact .inr (.inl ⟨by rw [List.append_nil], rfl⟩)
      · obtain ⟨rfl, rfl⟩ := fenced_alone hn hX hC ht'
        refine .inr (.inr ⟨?_, rfl⟩)
        rw [fenced]
        simp only [List.append_assoc, List.append_nil]

/-- What contains no `x` is in front of it or behind it. -/
theorem prefix_of_notMem {t P a b : List α} {x : α} (hx : x ∉ P) (h : t ++ P <+: a ++ x :: b) :
    t ++ P <+: a ∨ ∃ t', t = a ++ x :: t' ∧ t' ++ P <+: b := by
  have ht := (List.prefix_append t P).trans h
  by_cases hle : (t ++ P).length ≤ a.length
  · exact .inl (List.prefix_of_prefix_length_le h (List.prefix_append _ _) hle)
  · by_cases hlt : a.length < t.length
    · have hax : a ++ [x] <+: a ++ x :: b := ⟨b, by simp⟩
      obtain ⟨t', rfl⟩ := List.prefix_of_prefix_length_le hax ht (by
        rw [List.length_append, List.length_singleton]
        omega)
      refine .inr ⟨t', by simp, ?_⟩
      simpa [List.prefix_append_right_inj] using h
    · -- then `x` is in `P`
      rw [List.length_append] at hle
      have hget : (t ++ P)[a.length]? = some x := by
        rw [← getElem?_of_front h (by rw [List.length_append]; omega), List.getElem?_append_right (Nat.le_refl _),
          Nat.sub_self, List.getElem?_cons_zero]
      rw [List.getElem?_append_right (by omega)] at hget
      exact absurd (List.mem_of_getElem? hget) hx

/-- Between two markers, in lines: a word with an element that the lines do not have is
that of one of the two. -/
theorem fenced_lines_cases (hn : 0 < n) {u X A m C : List α} {x y : α} (hX : Core d X) (hA : Core d A) (hC : Core d C)
    (hxX : x ∉ X) (hxd : x ≠ d) (hyX : y ∈ X) (hym : y ∉ m)
    (h : u ++ fenced d n X <+: fenced d n A ++ ((m ++ [x]) ++ fenced d n C)) :
    (u = [] ∧ X = A) ∨ (u = fenced d n A ++ (m ++ [x]) ∧ X = C) := by
  rcases fenced_second hn hX hA h with hfirst | ⟨t, rfl, ht⟩
  · exact .inl hfirst
  · have hfree : x ∉ fenced d n X := by
      simp only [fenced, fence, List.mem_append, not_or]
      exact ⟨fun hx => hxd (List.eq_of_mem_replicate hx), hxX, fun hx => hxd (List.eq_of_mem_replicate hx)⟩
    have hline : t ++ fenced d n X <+: (fence d n ++ m) ++ x :: fenced d n C := by simpa using ht
    rcases prefix_of_notMem hfree hline with hleft | ⟨t', rfl, ht'⟩
    · have hmem : y ∈ fence d n ++ m := hleft.subset (by simp [fenced, hyX])
      rcases List.mem_append.mp hmem with hmem | hmem
      · exact absurd (List.eq_of_mem_replicate hmem ▸ hyX) hX.free
      · exact absurd hmem hym
    · obtain ⟨rfl, rfl⟩ := fenced_alone hn hX hC ht'
      exact .inr ⟨by simp [fenced], rfl⟩

/-! ## Exchanging a word -/

/-- A marker with a word of `K` from `i` to `j`. -/
def MarkAt (d : α) (n : Nat) (K : List α → Prop) (T : List α) (i j : Nat) : Prop :=
  ∃ u X, K X ∧ u ++ fenced d n X <+: T ∧ u.length = i ∧ u.length + (2 * n + X.length) = j

/-- Where a marker goes when the word of the marker at `m` is exchanged for one of
another length: nowhere, if it ends in the first fence; if it is that marker itself, its
length changes; and the others are moved along. -/
def Moved (n m x y i j i' j' : Nat) : Prop :=
  (j ≤ m + n ∧ i' = i ∧ j' = j) ∨ (i = m ∧ i' = m ∧ j = m + (2 * n + x) ∧ j' = m + (2 * n + y)) ∨
    (m + n + x ≤ i ∧ i' + x = i + y ∧ j' + x = j + y)

theorem MarkAt.exchange (hn : 0 < n) {K : List α → Prop} (hK : ∀ X, K X → Core d X) {p q X Y : List α} {i j : Nat}
    (hX : Core d X) (hXY : K X → K Y) (h : MarkAt d n K (p ++ (fenced d n X ++ q)) i j) :
    ∃ i' j', MarkAt d n K (p ++ (fenced d n Y ++ q)) i' j' ∧ Moved n p.length X.length Y.length i j i' j' := by
  obtain ⟨u, Z, hZ, hu, rfl, rfl⟩ := h
  rcases fenced_cases hn hX (hK Z hZ) hu with hleft | ⟨rfl, rfl⟩ | ⟨t, rfl, ht⟩
  · have hlen := hleft.length_le
    rw [List.length_append, List.length_append, length_fenced, length_fence] at hlen
    refine ⟨_, _, ⟨u, Z, hZ, hleft.trans ?_, rfl, rfl⟩, .inl ⟨hlen, rfl, rfl⟩⟩
    rw [fenced, List.append_assoc, List.prefix_append_right_inj]
    exact List.prefix_append _ _
  · refine ⟨_, _, ⟨u, Y, hXY hZ, ?_, rfl, rfl⟩, .inr (.inl ⟨rfl, rfl, rfl, rfl⟩)⟩
    rw [List.prefix_append_right_inj]
    exact List.prefix_append _ _
  · refine ⟨_, _, ⟨p ++ (fence d n ++ (Y ++ t)), Z, hZ, ?_, rfl, rfl⟩, .inr (.inr ?_)⟩
    · rw [fenced.eq_def d n Y]
      simp only [List.append_assoc, List.prefix_append_right_inj]
      exact ht
    · simp only [List.length_append, length_fence]
      omega

theorem MarkAt.lt {K : List α → Prop} (hK : ∀ X, K X → Core d X) {T : List α} {i j : Nat} (h : MarkAt d n K T i j) :
    i + 2 * n < j := by
  obtain ⟨u, X, hX, -, rfl, rfl⟩ := h
  have := (hK X hX).length_pos
  omega

/-- A marker of `E` is begun before the first marker of `B` ends. -/
def Crossed (d : α) (n : Nat) (B E : List α → Prop) (T : List α) : Prop :=
  ∃ i j i' j', MarkAt d n B T i j ∧ (∀ k l, MarkAt d n B T k l → i ≤ k) ∧ MarkAt d n E T i' j' ∧ i' < j

/-- Every marker of `X` has one of `Y` before it. -/
def Preceded (d : α) (n : Nat) (X Y T : List α) : Prop :=
  ∀ i j, MarkAt d n (· = X) T i j → ∃ i' j', MarkAt d n (· = Y) T i' j' ∧ i' < i

/-- Around a text that has no fence in front of it and behind it. -/
theorem markAt_surrounded (hn : 0 < n) {K : List α → Prop} {f T b : List α} (hf : d ∉ f) (hb : d ∉ b) {i j : Nat} :
    MarkAt d n K (f ++ (T ++ b)) i j ↔ ∃ k l, MarkAt d n K T k l ∧ i = f.length + k ∧ j = f.length + l := by
  constructor
  · rintro ⟨u, X, hX, hu, rfl, rfl⟩
    have hfirst := getElem?_fence hu hn
    have hle : f.length ≤ u.length := by
      by_contra hlt
      rw [Nat.add_zero, List.getElem?_append_left (by omega)] at hfirst
      exact hf (List.mem_of_getElem? hfirst)
    obtain ⟨v, rfl⟩ := List.prefix_of_prefix_length_le (List.prefix_append f _) ((List.prefix_append u _).trans hu) hle
    rw [List.append_assoc, List.prefix_append_right_inj] at hu
    -- the last element of the marker
    obtain ⟨r, hr⟩ : ∃ r, v ++ fenced d n X = r ++ [d] := by
      obtain ⟨k, rfl⟩ := Nat.exists_eq_succ_of_ne_zero hn.ne'
      exact ⟨v ++ (fence d (k + 1) ++ (X ++ fence d k)), by simp [fenced, fence, List.replicate_succ']⟩
    have hend : (r ++ [d]).length ≤ T.length := by
      by_contra hlt
      rw [hr] at hu
      rw [List.length_append, List.length_singleton] at hlt
      have hlast := getElem?_of_front hu (i := r.length) (by rw [List.length_append, List.length_singleton]; omega)
      rw [List.getElem?_append_right (by omega), List.getElem?_append_right (Nat.le_refl _), Nat.sub_self,
        List.getElem?_cons_zero] at hlast
      exact hb (List.mem_of_getElem? hlast)
    refine ⟨_, _, ⟨v, X, hX, List.prefix_of_prefix_length_le hu (List.prefix_append T b) (hr ▸ hend), rfl, rfl⟩, ?_, ?_⟩
    · rw [List.length_append]
    · rw [List.length_append, Nat.add_assoc]
  · rintro ⟨k, l, ⟨u, X, hX, hu, rfl, rfl⟩, rfl, rfl⟩
    refine ⟨f ++ u, X, hX, ?_, by rw [List.length_append], by rw [List.length_append, Nat.add_assoc]⟩
    rw [List.append_assoc, List.prefix_append_right_inj]
    exact hu.trans (List.prefix_append T b)

theorem crossed_surrounded (hn : 0 < n) {B E : List α → Prop} {f T b : List α} (hf : d ∉ f) (hb : d ∉ b) :
    Crossed d n B E (f ++ (T ++ b)) ↔ Crossed d n B E T := by
  constructor
  · rintro ⟨i, j, i', j', hi, hfirst, hi', hlt⟩
    obtain ⟨k, l, hk, rfl, rfl⟩ := (markAt_surrounded hn hf hb).mp hi
    obtain ⟨k', l', hk', rfl, rfl⟩ := (markAt_surrounded hn hf hb).mp hi'
    refine ⟨k, l, k', l', hk, fun a b hab => ?_, hk', by omega⟩
    have hle := hfirst _ _ ((markAt_surrounded hn hf hb).mpr ⟨a, b, hab, rfl, rfl⟩)
    omega
  · rintro ⟨k, l, k', l', hk, hfirst, hk', hlt⟩
    refine ⟨_, _, _, _, (markAt_surrounded hn hf hb).mpr ⟨k, l, hk, rfl, rfl⟩, fun a b hab => ?_,
      (markAt_surrounded hn hf hb).mpr ⟨k', l', hk', rfl, rfl⟩, by omega⟩
    obtain ⟨a', b', hab', rfl, rfl⟩ := (markAt_surrounded hn hf hb).mp hab
    have hle := hfirst a' b' hab'
    omega

section

variable (hn : 0 < n) {X Y : List α} (hX : Core d X) (hY : Core d Y)

include hn hX hY

theorem Crossed.exchange {B E : List α → Prop} (hB : ∀ X, B X → Core d X) (hE : ∀ X, E X → Core d X)
    (hBXY : B X ↔ B Y) (hEXY : E X ↔ E Y) {p q : List α} (h : Crossed d n B E (p ++ (fenced d n X ++ q))) :
    Crossed d n B E (p ++ (fenced d n Y ++ q)) := by
  obtain ⟨i, j, i', j', hi, hfirst, hi', hlt⟩ := h
  have hsize := hi.lt hB
  have hsize' := hi'.lt hE
  obtain ⟨k, l, hk, hmoved⟩ := hi.exchange hn hB hX hBXY.mp
  obtain ⟨k', l', hk', hmoved'⟩ := hi'.exchange hn hE hX hEXY.mp
  refine ⟨k, l, k', l', hk, fun a b hab => ?_, hk', ?_⟩
  · -- back to the text before the exchange, where `i` is the first
    obtain ⟨a', b', hab', hback⟩ := hab.exchange hn hB hY hBXY.mpr
    have hle := hfirst a' b' hab'
    have hab := hab.lt hB
    have hab' := hab'.lt hB
    rcases hmoved with h | h | h <;> rcases hback with h' | h' | h' <;> omega
  · rcases hmoved with h | h | h <;> rcases hmoved' with h' | h' | h' <;> omega

theorem Preceded.exchange {V W : List α} (hV : Core d V) (hW : Core d W) (hYV : Y ≠ V) (hXW : X ≠ W)
    {p q : List α} (h : Preceded d n V W (p ++ (fenced d n X ++ q))) :
    Preceded d n V W (p ++ (fenced d n Y ++ q)) := by
  intro i j hi
  have hcore {U : List α} (hU : Core d U) : ∀ Z, Z = U → Core d Z := fun Z hZ => hZ ▸ hU
  obtain ⟨i', j', hi', hmoved⟩ := hi.exchange hn (hcore hV) hY (Y := X) fun hYV' => absurd hYV' hYV
  obtain ⟨k', l', hk', hlt⟩ := h i' j' hi'
  obtain ⟨k, l, hk, hmoved'⟩ := hk'.exchange hn (hcore hW) hX (Y := Y) fun hXW' => absurd hXW' hXW
  have hsize := hi.lt (hcore hV)
  have hsize' := hi'.lt (hcore hV)
  have hsizek := hk'.lt (hcore hW)
  refine ⟨k, l, hk, ?_⟩
  rcases hmoved with h | h | h <;> rcases hmoved' with h' | h' | h' <;> omega

end

/-! ## Exchanging every word -/

section

variable [DecidableEq α] (hn : 0 < n) {X Y : List α} (hX : Core d X) (hY : Core d Y)

include hn hX hY

theorem crossed_replaceAll {B E : List α → Prop} (hB : ∀ X, B X → Core d X) (hE : ∀ X, E X → Core d X)
    (hBXY : B X ↔ B Y) (hEXY : E X ↔ E Y) (T : List α) :
    Crossed d n B E (replaceAll (fenced d n X) (fenced d n Y) T) ↔ Crossed d n B E T :=
  replaceAll_iff (fenced_ne_nil hX) (fun _ _ => ⟨fun h => h.exchange hn hX hY hB hE hBXY hEXY,
    fun h => h.exchange hn hY hX hB hE hBXY.symm hEXY.symm⟩) T

theorem preceded_replaceAll {V W : List α} (hV : Core d V) (hW : Core d W) (hXV : X ≠ V) (hYV : Y ≠ V) (hXW : X ≠ W)
    (hYW : Y ≠ W) (T : List α) :
    Preceded d n V W (replaceAll (fenced d n X) (fenced d n Y) T) ↔ Preceded d n V W T :=
  replaceAll_iff (fenced_ne_nil hX) (fun _ _ => ⟨fun h => h.exchange hn hX hY hV hW hYV hXW,
    fun h => h.exchange hn hY hX hV hW hXV hYW⟩) T

/-- What is left over was sharing a fence with what was exchanged before it. -/
theorem preceded_of_replaceAll (hXY : X ≠ Y) (T : List α) :
    Preceded d n X Y (replaceAll (fenced d n X) (fenced d n Y) T) := by
  rintro i j ⟨u, Z, rfl, hu, rfl, rfl⟩
  cases hT : findFront (fenced d n Z) T with
  | none =>
    have hnone := findFront_eq_none_iff.mp hT
    rw [replaceAll_of_not_occurs _ hnone] at hu
    exact absurd hu (hnone u)
  | some p =>
    have hfirst := findFront_eq_some_iff.mp hT
    obtain ⟨q, rfl⟩ := hfirst.occurs
    rw [List.append_assoc] at hfirst hu ⊢
    rw [replaceAll_first (fenced_ne_nil hX) hfirst] at hu ⊢
    rcases fenced_cases hn hY hX hu with hleft | ⟨-, rfl⟩ | ⟨t, rfl, -⟩
    · -- it was there before, and earlier than the first
      have hlen := hleft.length_le
      have hearlier := hfirst.first u (hleft.trans (fence_front hfirst.occurs))
      have hpos := hX.length_pos
      rw [List.length_append, List.length_append, length_fenced, length_fence] at hlen
      omega
    · exact absurd rfl hXY
    · refine ⟨_, _, ⟨p, Y, rfl, ?_, rfl, rfl⟩, ?_⟩
      · rw [List.prefix_append_right_inj]
        exact List.prefix_append _ _
      · have hpos := hY.length_pos
        simp only [List.length_append]
        omega

end

end Lox
