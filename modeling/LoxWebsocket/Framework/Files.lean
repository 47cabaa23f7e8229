import LoxWebsocket.Framework.Text
import LoxWebsocket.Framework.Prog
import Mathlib.Logic.Function.Basic

/-!
# Files

A disk maps paths to contents. Each operation is one step on it, and may be
stopped by a fault after some part of its work: a write after some of its bytes,
the others before or after the whole. Nothing runs after a fault that is a crash,
and a rename is done or not done.

An operation changes the paths it names and no other (`remove_untouched` and so
on). On a disk without faults it succeeds where it can (`remove_sound`,
`replace_sound`); with them, replacing a file by way of another leaves the file
as it was or with the whole of the new content (`replace_intact`).
-/

namespace Lox

inductive IoError
  | notFound
  | invalidData (message : Str)
  | other
  deriving DecidableEq

/-- Paths, and whether one can be that of a file. -/
class FilePaths (π : Type) where
  names : π → Bool

structure Fault where
  /-- How much of the step has been done. -/
  done : Nat
  /-- Nothing runs after it. -/
  crash : Bool
  deriving DecidableEq

structure Disk (π : Type) where
  files : π → Option Bytes
  /-- What goes wrong in the steps to come; nothing does once the list is at its end. -/
  faults : List (Option Fault)
  down : Bool

abbrev Io (π : Type) : Type → Type := Prog (Disk π) IoError

namespace Disk

variable {π : Type}

/-- The content of the file at `p`. -/
def read [FilePaths π] (d : Disk π) (p : π) : Except IoError Bytes :=
  if FilePaths.names p then
    match d.files p with
    | some content => .ok content
    | none => .error .notFound
  else .error .other

/-- One step: `effect none` is what it does to the files, `effect (some n)` what
it has done to them when a fault stops it after `n` parts. -/
def step (effect : Option Nat → (π → Option Bytes) → π → Option Bytes) : Io π Unit := fun d =>
  if d.down then (.error .other, d)
  else
    match d.faults with
    | some fault :: faults =>
      (.error .other, ⟨effect (some fault.done) d.files, faults, fault.crash⟩)
    | none :: faults => (.ok (), ⟨effect none d.files, faults, false⟩)
    | [] => (.ok (), ⟨effect none d.files, [], false⟩)

/-- A change that is made in one piece. -/
def whole (change : (π → Option Bytes) → π → Option Bytes) (done : Option Nat) (files : π → Option Bytes) :
    π → Option Bytes := if done = some 0 then files else change files

/-- The part of `bytes` that is written. -/
def written (bytes : Bytes) : Option Nat → Bytes
  | none => bytes
  | some n => bytes.take n

def createDir : Io π Unit := step fun _ files => files

def sync : Io π Unit := step fun _ files => files

variable [DecidableEq π] [FilePaths π]

def remove (p : π) : Io π Unit := fun d =>
  match d.read p with
  | .error e => (.error e, d)
  | .ok _ => step (whole fun files => Function.update files p none) d

/-- An empty file at `p`, whatever was there. -/
def create (p : π) : Io π Unit := fun d =>
  if FilePaths.names p then step (whole fun files => Function.update files p (some [])) d else (.error .other, d)

/-- Append to the open file at `p`. -/
def write (p : π) (bytes : Bytes) : Io π Unit :=
  step fun done files => Function.update files p (some ((files p).getD [] ++ written bytes done))

/-- Move the file at `p` to `q`, over what was there. -/
def rename (p q : π) : Io π Unit := fun d =>
  match d.read p with
  | .error e => (.error e, d)
  | .ok content =>
    if FilePaths.names q then
      step (whole fun files => Function.update (Function.update files p none) q (some content)) d
    else (.error .other, d)

/-- Replace the file at `q` by way of the one at `p`, which is made anew. -/
def replace (p q : π) (bytes : Bytes) : Io π Unit := do
  let _ ← (remove p).attempt
  create p
  write p bytes
  sync
  rename p q

/-! ## One step -/

section

variable {effect : Option Nat → (π → Option Bytes) → π → Option Bytes} {d : Disk π}

omit [DecidableEq π] [FilePaths π] in
/-- A step is done, or it fails with a part of it done, or nothing runs any more. -/
theorem step_wp {Q : Unit → Disk π → Prop} {E : IoError → Disk π → Prop}
    (hdone : ∀ faults, Q () ⟨effect none d.files, faults, false⟩)
    (hpart : ∀ n faults crash, E .other ⟨effect (some n) d.files, faults, crash⟩) (hdown : E .other d) :
    (step effect).wp Q E d := by
  unfold Prog.wp step
  split_ifs
  · exact hdown
  · rcases d.faults with _ | ⟨_ | fault, faults⟩
    · exact hdone []
    · exact hdone faults
    · exact hpart fault.done faults fault.crash

omit [DecidableEq π] [FilePaths π] in
@[simp] theorem whole_none (change : (π → Option Bytes) → π → Option Bytes) (files : π → Option Bytes) :
    whole change none files = change files := rfl

omit [FilePaths π] in
theorem whole_update_of_ne {p q : π} (h : q ≠ p) (content : Option Bytes) (done : Option Nat)
    (files : π → Option Bytes) : whole (fun files => Function.update files p content) done files q = files q := by
  unfold whole
  split_ifs
  · rfl
  · exact Function.update_of_ne h _ _

/-- The next step fails before it has done anything. -/
def Refuses (d : Disk π) : Prop := d.down = true ∨ ∃ crash faults, d.faults = some ⟨0, crash⟩ :: faults

omit [DecidableEq π] [FilePaths π] in
/-- A change made in one piece is not made at all if the step is refused, and
else made as a whole, even if the step fails. -/
theorem step_whole (change : (π → Option Bytes) → π → Option Bytes) (d : Disk π) :
    d.Refuses ∧ (step (whole change) d).2.files = d.files ∨
      ¬ d.Refuses ∧ (step (whole change) d).2.files = change d.files := by
  obtain ⟨files, faults, down⟩ := d
  cases down with
  | true => exact .inl ⟨.inl rfl, rfl⟩
  | false =>
    rcases faults with _ | ⟨_ | ⟨_ | n, crash⟩, faults⟩
    · exact .inr ⟨by simp [Refuses], rfl⟩
    · exact .inr ⟨by simp [Refuses], rfl⟩
    · exact .inl ⟨.inr ⟨crash, faults, rfl⟩, rfl⟩
    · exact .inr ⟨by simp [Refuses], rfl⟩

/-- No step to come fails. -/
def Sound (d : Disk π) : Prop := d.down = false ∧ ∀ fault ∈ d.faults, fault = none

omit [DecidableEq π] [FilePaths π] in
theorem Sound.not_refuses (h : d.Sound) : ¬ d.Refuses := by
  rintro (hdown | ⟨crash, faults, hfaults⟩)
  · exact Bool.false_ne_true (h.1.symm.trans hdown)
  · have hnone := h.2 (some ⟨0, crash⟩) (by simp [hfaults])
    cases hnone

omit [DecidableEq π] [FilePaths π] in
/-- On a disk without faults a step is done. -/
theorem step_sound {Q : Unit → Disk π → Prop} {E : IoError → Disk π → Prop} (h : d.Sound)
    (hdone : ∀ d', d'.Sound → d'.files = effect none d.files → Q () d') : (step effect).wp Q E d := by
  obtain ⟨files, faults, down⟩ := d
  obtain ⟨rfl, hfaults⟩ := h
  cases faults with
  | nil => exact hdone _ ⟨rfl, hfaults⟩ rfl
  | cons fault faults =>
    rw [List.forall_mem_cons] at hfaults
    obtain ⟨rfl, hfaults⟩ := hfaults
    exact hdone _ ⟨rfl, hfaults⟩ rfl

end

/-! ## What an operation changes -/

/-- The file at `q` is as it was. -/
def Untouched (q : π) (d d' : Disk π) : Prop := d'.files q = d.files q

instance (q : π) : IsPreorder (Disk π) (Untouched q) where
  refl _ := rfl
  trans _ _ _ h h' := h'.trans h

variable {p q : π} {d : Disk π}

omit [DecidableEq π] in
theorem read_eq_ok {content : Bytes} :
    d.read p = .ok content ↔ FilePaths.names p = true ∧ d.files p = some content := by
  unfold read
  split_ifs with h
  · split
    · rename_i heq
      simp [h, heq]
    · rename_i heq
      simp [heq]
  · simp [h]

theorem remove_untouched (h : q ≠ p) : (remove p).Keeps (Untouched q) := by
  intro d
  unfold remove
  split
  · exact rfl
  · refine Prog.of_wp (step_wp (fun _ => ?_) (fun _ _ _ => ?_) rfl)
    · exact Function.update_of_ne h _ _
    · exact whole_update_of_ne h _ _ _

/-- A file that can be read is still there if the step is refused, and else it is
gone. -/
theorem remove_file {content : Bytes} (h : d.read p = .ok content) :
    d.Refuses ∧ (remove p d).2.files = d.files ∨ ¬ d.Refuses ∧ (remove p d).2.files p = none := by
  have hstep : remove p d = step (whole fun files => Function.update files p none) d := by rw [remove, h]
  rw [hstep]
  refine (step_whole _ d).imp_right fun hdone => ⟨hdone.1, ?_⟩
  rw [hdone.2]
  exact Function.update_self _ _ _

omit [DecidableEq π] [FilePaths π] in
theorem createDir_untouched (q : π) : (createDir : Io π Unit).Keeps (Untouched q) := fun _ =>
  Prog.of_wp (step_wp (fun _ => rfl) (fun _ _ _ => rfl) rfl)

theorem create_wp (h : q ≠ p) (d : Disk π) : (create p).wp
    (fun _ d' => Untouched q d d' ∧ d'.files p = some []) (fun _ d' => Untouched q d d') d := by
  by_cases hnames : FilePaths.names p
  · have hstep : create p d = step (whole fun files => Function.update files p (some [])) d := if_pos hnames
    rw [Prog.wp, hstep]
    refine step_wp (Q := fun _ d' => Untouched q d d' ∧ d'.files p = some []) (fun _ => ⟨?_, ?_⟩) (fun _ _ _ => ?_) rfl
    · exact Function.update_of_ne h _ _
    · exact Function.update_self _ _ _
    · exact whole_update_of_ne h _ _ _
  · have hfail : create p d = (.error .other, d) := if_neg hnames
    exact (Prog.wp_error hfail).mpr rfl

omit [FilePaths π] in
theorem write_wp (h : q ≠ p) (bytes : Bytes) (hp : d.files p = some []) : (write p bytes).wp
    (fun _ d' => Untouched q d d' ∧ d'.files p = some bytes) (fun _ d' => Untouched q d d') d := by
  refine step_wp (fun _ => ⟨?_, ?_⟩) (fun _ _ _ => ?_) rfl
  · exact Function.update_of_ne h _ _
  · exact (Function.update_self _ _ _).trans (by rw [hp]; rfl)
  · exact Function.update_of_ne h _ _

omit [DecidableEq π] [FilePaths π] in
theorem sync_wp (d : Disk π) :
    (sync : Io π Unit).wp (fun _ d' => d'.files = d.files) (fun _ d' => d'.files = d.files) d :=
  step_wp (fun _ => rfl) (fun _ _ _ => rfl) rfl

theorem rename_wp {content : Bytes} (hp : d.files p = some content) : (rename p q).wp
    (fun _ d' => d'.files q = some content) (fun _ d' => d'.files q = d.files q ∨ d'.files q = some content) d := by
  rcases hread : d.read p with e | content'
  · exact (Prog.wp_error (by rw [rename, hread])).mpr (.inl rfl)
  obtain ⟨-, hp'⟩ := read_eq_ok.mp hread
  cases hp.symm.trans hp'
  by_cases hq : FilePaths.names q
  · have hstep : rename p q d =
        step (whole fun files => Function.update (Function.update files p none) q (some content)) d := by
      simp only [rename, hread, hq, if_true]
    rw [Prog.wp, hstep]
    refine step_wp (fun _ => Function.update_self _ _ _) (fun n _ _ => ?_) (.inl rfl)
    -- A rename that fails has been done as a whole, or not at all.
    unfold whole
    split_ifs
    · exact .inl rfl
    · exact .inr (Function.update_self _ _ _)
  · exact (Prog.wp_error (by simp only [rename, hread, hq]; rfl)).mpr (.inl rfl)

/-- However it is stopped, replacing a file by way of another leaves it as it was
or with the whole of the new content. -/
theorem replace_intact (h : q ≠ p) (bytes : Bytes) (d : Disk π) :
    (replace p q bytes d).2.files q = d.files q ∨ (replace p q bytes d).2.files q = some bytes := by
  refine Prog.of_wp (I := fun d' : Disk π => d'.files q = d.files q ∨ d'.files q = some bytes) ?_
  refine Prog.wp_bind.mpr (Prog.wp_mono ((remove_untouched h).attempt.wp d) (fun _ d₀ h₀ => ?_) fun _ _ => .inl)
  refine Prog.wp_bind.mpr (Prog.wp_mono (create_wp h d₀) (fun _ d₁ h₁ => ?_) fun _ _ h₁ => .inl (h₁.trans h₀))
  have h₁₀ := h₁.1.trans h₀
  refine Prog.wp_bind.mpr (Prog.wp_mono (write_wp h bytes h₁.2) (fun _ d₂ h₂ => ?_) fun _ _ h₂ => .inl (h₂.trans h₁₀))
  have h₂₀ := h₂.1.trans h₁₀
  refine Prog.wp_bind.mpr (Prog.wp_mono (sync_wp d₂) (fun _ d₃ h₃ => ?_) fun _ _ h₃ => .inl ?_)
  · have hp : d₃.files p = some bytes := by rw [h₃, h₂.2]
    have hq : d₃.files q = d.files q := by rw [h₃]; exact h₂₀
    refine Prog.wp_mono (rename_wp hp) (fun _ _ => .inr) fun _ _ h₄ => ?_
    rwa [hq] at h₄
  · rw [h₃]
    exact h₂₀

/-! ## Without faults -/

theorem remove_sound (h : d.Sound) (p : π) :
    (remove p d).2.Sound ∧ (FilePaths.names p = true → (remove p d).2.files p = none) := by
  rcases hread : d.read p with e | content
  · have hsame : remove p d = (.error e, d) := by rw [remove, hread]
    rw [hsame]
    refine ⟨h, fun hnames => ?_⟩
    by_contra hp
    obtain ⟨content, hp⟩ := Option.ne_none_iff_exists'.mp hp
    rw [read_eq_ok.mpr ⟨hnames, hp⟩] at hread
    cases hread
  · have hstep : remove p d = step (whole fun files => Function.update files p none) d := by rw [remove, hread]
    rw [hstep]
    refine Prog.of_wp (I := fun d' : Disk π => d'.Sound ∧ (_ → d'.files p = none)) ?_
    refine step_sound h fun d' hd hfiles => ⟨hd, fun _ => ?_⟩
    rw [hfiles]
    exact Function.update_self _ _ _

theorem create_sound {E : IoError → Disk π → Prop} (h : d.Sound) (hp : FilePaths.names p = true) :
    (create p).wp (fun _ d' => d'.Sound ∧ d'.files p = some []) E d := by
  have hstep : create p d = step (whole fun files => Function.update files p (some [])) d := if_pos hp
  rw [Prog.wp, hstep]
  refine step_sound h fun d' hd hfiles => ⟨hd, ?_⟩
  rw [hfiles]
  exact Function.update_self _ _ _

omit [FilePaths π] in
theorem write_sound {E : IoError → Disk π → Prop} (h : d.Sound) (bytes : Bytes) (hp : d.files p = some []) :
    (write p bytes).wp (fun _ d' => d'.Sound ∧ d'.files p = some bytes) E d := by
  refine step_sound h fun d' hd hfiles => ⟨hd, ?_⟩
  rw [hfiles, Function.update_self, hp]
  rfl

theorem rename_sound {E : IoError → Disk π → Prop} {content : Bytes} (h : d.Sound) (hp : d.read p = .ok content)
    (hq : FilePaths.names q = true) : (rename p q).wp (fun _ d' => d'.Sound ∧ d'.files q = some content) E d := by
  have hstep : rename p q d =
      step (whole fun files => Function.update (Function.update files p none) q (some content)) d := by
    simp only [rename, hp, hq, if_true]
  rw [Prog.wp, hstep]
  refine step_sound h fun d' hd hfiles => ⟨hd, ?_⟩
  rw [hfiles]
  exact Function.update_self _ _ _

/-- On a disk without faults a file is replaced. -/
theorem replace_sound (h : d.Sound) (bytes : Bytes) (hp : FilePaths.names p = true) (hq : FilePaths.names q = true) :
    (replace p q bytes d).2.Sound ∧ (replace p q bytes d).2.files q = some bytes := by
  refine Prog.of_wp (I := fun d' : Disk π => d'.Sound ∧ d'.files q = some bytes) ?_
  have hattempt : ((remove p).attempt : Io π (Except IoError Unit)) d = (.ok (remove p d).1, (remove p d).2) := rfl
  refine Prog.wp_bind.mpr ((Prog.wp_ok hattempt).mpr ?_)
  refine Prog.wp_bind.mpr (Prog.wp_mono (create_sound (remove_sound h p).1 hp) (fun _ d₁ h₁ => ?_) fun _ _ => id)
  refine Prog.wp_bind.mpr (Prog.wp_mono (write_sound h₁.1 bytes h₁.2) (fun _ d₂ h₂ => ?_) fun _ _ => id)
  refine Prog.wp_bind.mpr (step_sound h₂.1 fun d₃ h₃ hfiles => ?_)
  have hread : d₃.read p = .ok bytes := read_eq_ok.mpr ⟨hp, by rw [hfiles]; exact h₂.2⟩
  exact rename_sound h₃ hread hq

end Disk

end Lox
