import Mathlib.Data.List.Basic

/-!
# Runs of a transition system

A system is a function `step : σ → ι → Option σ`: the state after label `l`,
if `l` can happen in `s`. `run` takes a list of labels. What every step keeps,
every run keeps (`run_inv`); `Along C` says that every step of a run meets a
condition on its label and on the state before it, and gives what only such
steps keep (`run_inv_along`).
-/

namespace Lox

variable {σ ι : Type} {step : σ → ι → Option σ}

/-- The state after the labels `ls`, if each can happen in its turn. -/
def run (step : σ → ι → Option σ) : σ → List ι → Option σ
  | s, [] => some s
  | s, l :: ls => (step s l).bind fun s₁ => run step s₁ ls

@[simp] theorem run_nil (s : σ) : run step s [] = some s := rfl

theorem run_cons {s s' : σ} {l : ι} {ls : List ι} :
    run step s (l :: ls) = some s' ↔ ∃ s₁, step s l = some s₁ ∧ run step s₁ ls = some s' := by
  simp [run, Option.bind_eq_some_iff]

theorem run_append {s s₁ s' : σ} {ls ls' : List ι} (h : run step s ls = some s₁)
    (h' : run step s₁ ls' = some s') : run step s (ls ++ ls') = some s' := by
  induction ls generalizing s with
  | nil => cases h; exact h'
  | cons l ls ih =>
    obtain ⟨s₂, h₁, h₂⟩ := run_cons.mp h
    exact run_cons.mpr ⟨s₂, h₁, ih h₂⟩

/-- A run in two parts. -/
theorem exists_run_of_append {s s' : σ} {ls ls' : List ι} (h : run step s (ls ++ ls') = some s') :
    ∃ s₁, run step s ls = some s₁ ∧ run step s₁ ls' = some s' := by
  induction ls generalizing s with
  | nil => exact ⟨s, rfl, h⟩
  | cons l ls ih =>
    obtain ⟨s₂, h₁, h₂⟩ := run_cons.mp h
    obtain ⟨s₁, h₃, h₄⟩ := ih h₂
    exact ⟨s₁, run_cons.mpr ⟨s₂, h₁, h₃⟩, h₄⟩

/-- Every step of the run from `s` meets `C`, on the state before it and its
label. -/
def Along (step : σ → ι → Option σ) (C : σ → ι → Prop) : σ → List ι → Prop
  | _, [] => True
  | s, l :: ls => C s l ∧ ∀ s₁, step s l = some s₁ → Along step C s₁ ls

theorem Along.cons {C : σ → ι → Prop} {s s₁ : σ} {l : ι} {ls : List ι} (hc : C s l) (h : step s l = some s₁)
    (hs : Along step C s₁ ls) : Along step C s (l :: ls) := by
  refine ⟨hc, fun s₂ h₂ => ?_⟩
  rw [h] at h₂
  cases h₂
  exact hs

/-- A run that meets `C`, from its first step on. -/
theorem run_along_cons {C : σ → ι → Prop} {s s₁ s' : σ} {l : ι} {ls : List ι} (hc : C s l) (h : step s l = some s₁)
    (hs : run step s₁ ls = some s' ∧ Along step C s₁ ls) :
    run step s (l :: ls) = some s' ∧ Along step C s (l :: ls) :=
  ⟨run_cons.mpr ⟨s₁, h, hs.1⟩, .cons hc h hs.2⟩

theorem run_along_append {C : σ → ι → Prop} {s s₁ s' : σ} {ls ls' : List ι}
    (h : run step s ls = some s₁ ∧ Along step C s ls) (h' : run step s₁ ls' = some s' ∧ Along step C s₁ ls') :
    run step s (ls ++ ls') = some s' ∧ Along step C s (ls ++ ls') := by
  induction ls generalizing s with
  | nil =>
    cases h.1
    exact h'
  | cons l ls ih =>
    obtain ⟨s₂, hstep, hrest⟩ := run_cons.mp h.1
    exact run_along_cons h.2.1 hstep (ih ⟨hrest, h.2.2 s₂ hstep⟩)

/-- What every step meeting `C` keeps holds after a run of such steps. -/
theorem run_inv_along {C : σ → ι → Prop} {P : σ → Prop}
    (hstep : ∀ {s l s'}, C s l → P s → step s l = some s' → P s') {s s' : σ} {ls : List ι}
    (hC : Along step C s ls) (hs : P s) (h : run step s ls = some s') : P s' := by
  induction ls generalizing s with
  | nil => cases h; exact hs
  | cons l ls ih =>
    obtain ⟨s₁, h₁, h₂⟩ := run_cons.mp h
    exact ih (hC.2 s₁ h₁) (hstep hC.1 hs h₁) h₂

theorem Along.and {C D : σ → ι → Prop} {s : σ} {ls : List ι} (hC : Along step C s ls) (hD : Along step D s ls) :
    Along step (fun s l => C s l ∧ D s l) s ls := by
  induction ls generalizing s with
  | nil => trivial
  | cons l ls ih => exact ⟨⟨hC.1, hD.1⟩, fun s₁ h₁ => ih (hC.2 s₁ h₁) (hD.2 s₁ h₁)⟩

theorem along_true (s : σ) (ls : List ι) : Along step (fun _ _ => True) s ls := by
  induction ls generalizing s with
  | nil => trivial
  | cons l ls ih => exact ⟨trivial, fun s₁ _ => ih s₁⟩

/-- What every step keeps holds after every run. -/
theorem run_inv {P : σ → Prop} (hstep : ∀ {s l s'}, P s → step s l = some s' → P s') {s s' : σ}
    {ls : List ι} (hs : P s) (h : run step s ls = some s') : P s' :=
  run_inv_along (fun _ hp h => hstep hp h) (along_true s ls) hs h

/-- If a step can only lead to a good state from a good state and by meeting
`C`, then every run to a good state meets `C` all along. -/
theorem along_of_run {C : σ → ι → Prop} {P Q : σ → Prop}
    (hQ : ∀ {s l s'}, Q s → step s l = some s' → Q s')
    (hstep : ∀ {s l s'}, Q s → step s l = some s' → P s' → P s ∧ C s l) {s s' : σ} {ls : List ι}
    (hs : Q s) (h : run step s ls = some s') (hp : P s') : P s ∧ Along step C s ls := by
  induction ls generalizing s with
  | nil => cases h; exact ⟨hp, trivial⟩
  | cons l ls ih =>
    obtain ⟨s₁, h₁, h₂⟩ := run_cons.mp h
    obtain ⟨hp₁, ha⟩ := ih (hQ hs h₁) h₂
    obtain ⟨hps, hc⟩ := hstep hs h₁ hp₁
    refine ⟨hps, hc, fun s₂ h₂ => ?_⟩
    rw [h₁] at h₂; cases h₂
    exact ha

/-- If what a step keeps is decided by `C`, then it holds all along a run if and
only if the run meets `C` all along. -/
theorem forall_prefix_iff_along {C : σ → ι → Prop} {P : σ → Prop}
    (hstep : ∀ {s l s'}, P s → step s l = some s' → (P s' ↔ C s l)) {s s' : σ} {ls : List ι} (hs : P s)
    (h : run step s ls = some s') :
    (∀ ls' s₁, ls' <+: ls → run step s ls' = some s₁ → P s₁) ↔ Along step C s ls := by
  induction ls generalizing s with
  | nil =>
    refine iff_of_true (fun ls' s₁ hp h₁ => ?_) trivial
    cases List.prefix_nil.mp hp
    cases h₁
    exact hs
  | cons l ls ih =>
    obtain ⟨s₁, h₁, h₂⟩ := run_cons.mp h
    constructor
    · intro hall
      have hp : P s₁ := hall [l] s₁ (List.prefix_append [l] ls) (run_cons.mpr ⟨s₁, h₁, rfl⟩)
      refine .cons ((hstep hs h₁).mp hp) h₁ ((ih hp h₂).mp fun ls' s₂ hp' hr => ?_)
      exact hall (l :: ls') s₂ (List.cons_prefix_cons.mpr ⟨rfl, hp'⟩) (run_cons.mpr ⟨s₁, h₁, hr⟩)
    · intro hC ls' s₂ hp hr
      have hp₁ : P s₁ := (hstep hs h₁).mpr hC.1
      cases ls' with
      | nil => cases hr; exact hs
      | cons l' ls' =>
        obtain ⟨rfl, hp'⟩ := List.cons_prefix_cons.mp hp
        obtain ⟨s₃, h₃, hr'⟩ := run_cons.mp hr
        rw [h₁] at h₃
        cases h₃
        exact (ih hp₁ h₂).mpr (hC.2 s₁ h₁) ls' s₂ hp' hr'

end Lox
