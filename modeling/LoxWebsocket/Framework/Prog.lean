import Mathlib.Order.Defs.Unbundled

/-!
# Programs with a state and errors

A program reads and changes a state and ends with a value or an error; the
state it leaves is kept in both cases. `Prog.wp` is its weakest precondition
for a postcondition of each ending, with one rule for each way of composing
programs (`wp_bind`, `wp_mapErr`, `wp_attempt` and so on); `wp_mono` weakens
the postconditions, which is how the specification of one program is used
inside another. `Prog.Keeps` is for what both endings have in common: a
preorder that the steps of a program keep, the program keeps (`Keeps.bind`).
`Prog.Upholds I F` is for programs that stop at the first error: what its steps
keep as long as none has failed, and what one that fails may leave.
-/

namespace Lox

/-- A program over states `σ` that gives an `α` or fails with an `ε`. -/
def Prog (σ ε α : Type) : Type := σ → Except ε α × σ

namespace Prog

variable {σ ε ε' α β : Type}

instance : Monad (Prog σ ε) where
  pure a := fun s => (.ok a, s)
  bind x f := fun s =>
    match x s with
    | (.ok a, s') => f a s'
    | (.error e, s') => (.error e, s')

def fail (e : ε) : Prog σ ε α := fun s => (.error e, s)

def get : Prog σ ε σ := fun s => (.ok s, s)

def modify (f : σ → σ) : Prog σ ε Unit := fun s => (.ok (), f s)

/-- A function of the state with a value. -/
def act (f : σ → α × σ) : Prog σ ε α := fun s => (.ok (f s).1, (f s).2)

/-- A function of the state that may fail. -/
def tryAct (f : σ → Except ε α × σ) : Prog σ ε α := f

/-- A value or an error from outside the state. -/
def lift (r : Except ε α) : Prog σ ε α := fun s => (r, s)

/-- The same program, its errors changed by `f`. -/
def mapErr (f : ε → ε') (x : Prog σ ε α) : Prog σ ε' α := fun s =>
  match x s with
  | (.ok a, s') => (.ok a, s')
  | (.error e, s') => (.error (f e), s')

/-- The same program, its error given as a value. -/
def attempt (x : Prog σ ε α) : Prog σ ε' (Except ε α) := fun s => (.ok (x s).1, (x s).2)

/-! ## Weakest preconditions -/

/-- From `s` the program ends with a value and a state in `Q`, or with an error
and a state in `E`. -/
def wp (x : Prog σ ε α) (Q : α → σ → Prop) (E : ε → σ → Prop) (s : σ) : Prop :=
  match x s with
  | (.ok a, s') => Q a s'
  | (.error e, s') => E e s'

variable {Q : α → σ → Prop} {E : ε → σ → Prop} {s s' : σ}

theorem wp_ok {x : Prog σ ε α} {a : α} (hx : x s = (.ok a, s')) : x.wp Q E s ↔ Q a s' := by
  rw [wp, hx]

theorem wp_error {x : Prog σ ε α} {e : ε} (hx : x s = (.error e, s')) : x.wp Q E s ↔ E e s' := by
  rw [wp, hx]

/-- A program that cannot fail ends with a value. -/
theorem exists_ok_of_wp {x : Prog σ ε α} (h : x.wp Q (fun _ _ => False) s) :
    ∃ a s', x s = (.ok a, s') ∧ Q a s' := by
  unfold wp at h
  split at h
  · exact ⟨_, _, ‹_›, h⟩
  · exact h.elim

/-- What holds at both endings holds of the state that is left. -/
theorem of_wp {x : Prog σ ε α} {I : σ → Prop} (h : x.wp (fun _ s' => I s') (fun _ s' => I s') s) : I (x s).2 := by
  unfold wp at h
  split at h
  all_goals simp_all

theorem wp_mono {x : Prog σ ε α} {Q' : α → σ → Prop} {E' : ε → σ → Prop} (h : x.wp Q E s)
    (hQ : ∀ a s', Q a s' → Q' a s') (hE : ∀ e s', E e s' → E' e s') : x.wp Q' E' s := by
  unfold wp at *
  split at h
  · exact hQ _ _ h
  · exact hE _ _ h

theorem wp_and {x : Prog σ ε α} {Q' : α → σ → Prop} {E' : ε → σ → Prop} (h : x.wp Q E s) (h' : x.wp Q' E' s) :
    x.wp (fun a s' => Q a s' ∧ Q' a s') (fun e s' => E e s' ∧ E' e s') s := by
  unfold wp at *
  split
  · simp only [*] at h h'
    exact ⟨h, h'⟩
  · simp only [*] at h h'
    exact ⟨h, h'⟩

@[simp] theorem wp_pure (a : α) : (pure a : Prog σ ε α).wp Q E s ↔ Q a s := Iff.rfl

@[simp] theorem wp_fail (e : ε) : (fail e : Prog σ ε α).wp Q E s ↔ E e s := Iff.rfl

@[simp] theorem wp_get {Q : σ → σ → Prop} : (get : Prog σ ε σ).wp Q E s ↔ Q s s := Iff.rfl

@[simp] theorem wp_modify {Q : Unit → σ → Prop} (f : σ → σ) :
    (modify f : Prog σ ε Unit).wp Q E s ↔ Q () (f s) := Iff.rfl

@[simp] theorem wp_act (f : σ → α × σ) : (act f : Prog σ ε α).wp Q E s ↔ Q (f s).1 (f s).2 := Iff.rfl

theorem wp_lift (r : Except ε α) :
    (lift r : Prog σ ε α).wp Q E s ↔ (∀ a, r = .ok a → Q a s) ∧ ∀ e, r = .error e → E e s := by
  cases r <;> simp [wp, lift]

theorem bind_apply (x : Prog σ ε α) (f : α → Prog σ ε β) (s : σ) : (x >>= f) s =
    match x s with
    | (.ok a, s') => f a s'
    | (.error e, s') => (.error e, s') := rfl

theorem get_apply (s : σ) : (get : Prog σ ε σ) s = (.ok s, s) := rfl

theorem mapErr_error {x : Prog σ ε α} {e : ε} (hx : x s = (.error e, s')) (f : ε → ε') :
    x.mapErr f s = (.error (f e), s') := by
  rw [mapErr, hx]

theorem mapErr_ok {x : Prog σ ε α} {a : α} (hx : x s = (.ok a, s')) (f : ε → ε') :
    x.mapErr f s = (.ok a, s') := by
  rw [mapErr, hx]

theorem bind_ok {x : Prog σ ε α} {a : α} (hx : x s = (.ok a, s')) (f : α → Prog σ ε β) : (x >>= f) s = f a s' := by
  rw [bind_apply, hx]

theorem bind_error {x : Prog σ ε α} {e : ε} (hx : x s = (.error e, s')) (f : α → Prog σ ε β) :
    (x >>= f) s = (.error e, s') := by
  rw [bind_apply, hx]

/-- What fails in sequence fails in its first part, or after it. -/
theorem bind_eq_error {x : Prog σ ε α} {f : α → Prog σ ε β} {e : ε} (h : (x >>= f) s = (.error e, s')) :
    x s = (.error e, s') ∨ ∃ a s₁, x s = (.ok a, s₁) ∧ f a s₁ = (.error e, s') := by
  rw [bind_apply] at h
  rcases hx : x s with ⟨e' | a, s₁⟩
  · rw [hx] at h
    cases h
    exact .inl rfl
  · rw [hx] at h
    exact .inr ⟨a, s₁, rfl, h⟩

theorem wp_bind {x : Prog σ ε α} {f : α → Prog σ ε β} {Q : β → σ → Prop} :
    (x >>= f).wp Q E s ↔ x.wp (fun a s' => (f a).wp Q E s') E s := by
  unfold wp
  rw [bind_apply]
  rcases x s with ⟨_ | _, _⟩ <;> exact Iff.rfl

theorem wp_mapErr {x : Prog σ ε α} {f : ε → ε'} {E : ε' → σ → Prop} :
    (x.mapErr f).wp Q E s ↔ x.wp Q (fun e s' => E (f e) s') s := by
  unfold wp mapErr
  rcases x s with ⟨_ | _, _⟩ <;> exact Iff.rfl

theorem wp_attempt {x : Prog σ ε α} {Q : Except ε α → σ → Prop} {E : ε' → σ → Prop} :
    (x.attempt : Prog σ ε' _).wp Q E s ↔
      x.wp (fun a s' => Q (.ok a) s') (fun e s' => Q (.error e) s') s := by
  unfold wp attempt
  rcases x s with ⟨_ | _, _⟩ <;> exact Iff.rfl

/-! ## What every ending keeps -/

/-- However the program ends, the state it leaves is related to the one it
started from. -/
def Keeps (R : σ → σ → Prop) (x : Prog σ ε α) : Prop := ∀ s, R s (x s).2

theorem Keeps.wp {R : σ → σ → Prop} {x : Prog σ ε α} (h : x.Keeps R) (s : σ) :
    x.wp (fun _ s' => R s s') (fun _ s' => R s s') s := by
  have := h s
  unfold Prog.wp
  split <;> simp_all

section

variable {R : σ → σ → Prop} [IsPreorder σ R]

theorem keeps_pure (a : α) : (pure a : Prog σ ε α).Keeps R := fun s => refl_of R s

theorem keeps_fail (e : ε) : (fail e : Prog σ ε α).Keeps R := fun s => refl_of R s

theorem keeps_lift (r : Except ε α) : (lift r : Prog σ ε α).Keeps R := fun s => refl_of R s

theorem Keeps.bind {x : Prog σ ε α} {f : α → Prog σ ε β} (hx : x.Keeps R) (hf : ∀ a, (f a).Keeps R) :
    (x >>= f).Keeps R := by
  intro s
  have h := hx s
  rw [bind_apply]
  rcases hxs : x s with ⟨e | a, s'⟩
  · rw [hxs] at h; exact h
  · rw [hxs] at h; exact trans_of R h (hf a s')

end

theorem Keeps.mapErr {R : σ → σ → Prop} {x : Prog σ ε α} (h : x.Keeps R) (f : ε → ε') :
    (x.mapErr f).Keeps R := by
  intro s
  have := h s
  unfold Prog.mapErr
  split <;> simp_all

theorem Keeps.attempt {R : σ → σ → Prop} {x : Prog σ ε α} (h : x.Keeps R) :
    (x.attempt : Prog σ ε' _).Keeps R := h

/-- A second program, with what it keeps absorbed by what the first keeps. -/
theorem Keeps.bind_of {R S : σ → σ → Prop} {x : Prog σ ε α} {f : α → Prog σ ε β} (hx : x.Keeps R)
    (hf : ∀ a, (f a).Keeps S) (hRS : ∀ {s s' s''}, R s s' → S s' s'' → R s s'') : (x >>= f).Keeps R := by
  intro s
  have h := hx s
  rw [bind_apply]
  rcases hxs : x s with ⟨e | a, s'⟩
  · rw [hxs] at h; exact h
  · rw [hxs] at h; exact hRS h (hf a s')

/-- What a program keeps, it keeps in any weaker sense. -/
theorem Keeps.mono {R R' : σ → σ → Prop} {x : Prog σ ε α} (hx : x.Keeps R) (h : ∀ s s', R s s' → R' s s') :
    x.Keeps R' := fun s => h s _ (hx s)

/-- `I` is kept, if it holds. -/
def Stays (I : σ → Prop) (s s' : σ) : Prop := I s → I s'

instance (I : σ → Prop) : IsPreorder σ (Stays I) where
  refl _ h := h
  trans _ _ _ hab hbc h := hbc (hab h)

/-! ## What successful steps keep -/

/-- From a state in `I` the program ends with a value in a state of `I`, or
with an error as `F` says. -/
def Upholds (I : σ → Prop) (F : ε → σ → Prop) (x : Prog σ ε α) : Prop :=
  ∀ s, I s → x.wp (fun _ s' => I s') F s

section

variable {I : σ → Prop} {F : ε → σ → Prop}

theorem upholds_pure (a : α) : (pure a : Prog σ ε α).Upholds I F := fun _ hs => hs

theorem upholds_modify {f : σ → σ} (h : ∀ s, I s → I (f s)) : (modify f : Prog σ ε Unit).Upholds I F := h

theorem upholds_fail (hF : ∀ e s, I s → F e s) (e : ε) : (fail e : Prog σ ε α).Upholds I F := hF e

theorem upholds_lift (hF : ∀ e s, I s → F e s) (r : Except ε α) : (lift r : Prog σ ε α).Upholds I F := fun s hs =>
  (wp_lift r).mpr ⟨fun _ _ => hs, fun e _ => hF e s hs⟩

/-- A program that leaves `I` alone. -/
theorem Keeps.upholds {R : σ → σ → Prop} {x : Prog σ ε α} (hx : x.Keeps R) (hI : ∀ s s', R s s' → I s → I s')
    (hF : ∀ e s, I s → F e s) : x.Upholds I F := fun s hs =>
  wp_mono (hx.wp s) (fun _ s' h => hI s s' h hs) fun e s' h => hF e s' (hI s s' h hs)

theorem Upholds.bind {x : Prog σ ε α} {f : α → Prog σ ε β} (hx : x.Upholds I F)
    (hf : ∀ a, (f a).Upholds I F) : (x >>= f).Upholds I F := fun s hs =>
  wp_bind.mpr (wp_mono (hx s hs) (fun a s' h => hf a s' h) fun _ _ h => h)

theorem Upholds.mapErr {F' : ε' → σ → Prop} {x : Prog σ ε α} (hx : x.Upholds I F) {f : ε → ε'}
    (hf : ∀ e s, F e s → F' (f e) s) : (x.mapErr f).Upholds I F' := fun s hs =>
  wp_mapErr.mpr (wp_mono (hx s hs) (fun _ _ h => h) hf)

end

end Prog

end Lox
