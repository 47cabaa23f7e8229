import LoxWebsocket.Framework.Run

/-!
# Systems on a clock

The steps of a system take no time; time passes between them. `due` lists the
instants that time must not pass in a state: something happens at each of them
at the latest. What has been due for long, 0 say, keeps time from passing at all.

What the steps keep at each instant, and the passing of time keeps as far as it
may go, holds in every run (`Clockwork.run_inv`).
-/

namespace Lox

/-- A system whose steps are taken at an instant. -/
structure Clockwork (σ ι : Type) where
  act : Nat → σ → ι → Option σ
  due : σ → List Nat

/-- A state, and what time it is. -/
structure Timed (σ : Type) where
  now : Nat
  state : σ

/-- Time passes, or a step is taken. -/
inductive Tick (ι : Type)
  | elapse (d : Nat)
  | act (l : ι)

namespace Clockwork

variable {σ ι : Type} (W : Clockwork σ ι)

def step (s : Timed σ) : Tick ι → Option (Timed σ)
  | .elapse d => if ∀ t ∈ W.due s.state, s.now + d ≤ t then some ⟨s.now + d, s.state⟩ else none
  | .act l => (W.act s.now s.state l).map (⟨s.now, ·⟩)

variable {W}

theorem step_inv {P : Nat → σ → Prop} (hact : ∀ {now s l s'}, P now s → W.act now s l = some s' → P now s')
    (hlater : ∀ {now later s}, P now s → now ≤ later → (∀ t ∈ W.due s, later ≤ t) → P later s) {s s' : Timed σ}
    {l : Tick ι} (hs : P s.now s.state) (h : W.step s l = some s') : P s'.now s'.state := by
  cases l with
  | elapse d =>
    simp only [step] at h
    split_ifs at h with hdue
    cases h
    exact hlater hs (Nat.le_add_right _ _) hdue
  | act l =>
    obtain ⟨state, hl, rfl⟩ := Option.map_eq_some_iff.mp h
    exact hact hs hl

/-- What every step keeps, and time as far as it may pass, holds after every run. -/
theorem run_inv {P : Nat → σ → Prop} (hact : ∀ {now s l s'}, P now s → W.act now s l = some s' → P now s')
    (hlater : ∀ {now later s}, P now s → now ≤ later → (∀ t ∈ W.due s, later ≤ t) → P later s) {s s' : Timed σ}
    {ls : List (Tick ι)} (hs : P s.now s.state) (h : run W.step s ls = some s') : P s'.now s'.state :=
  Lox.run_inv (fun hs h => step_inv hact hlater hs h) hs h

end Clockwork

end Lox
