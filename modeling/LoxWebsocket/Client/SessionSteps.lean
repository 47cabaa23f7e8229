import LoxWebsocket.Client.Session

/-!
# What the steps of a session leave

What a step leaves as it is (`Still`, for the steps that neither expire a
waiter nor are the reader's).
-/

namespace Lox

variable {C : Crates}

namespace Session

variable {σ : Type}

/-- Steps that expire nothing, are not the reader's, and are of no secured
control. -/
def Label.isPlain : Label → Bool
  | .takeCommand _ | .expire _ | .finish | .resolve | .release | .flush | .complete => false
  | _ => true

/-- What they leave as it is. -/
structure Still (s s' : Session σ) : Prop where
  visu : s'.writer.visu = s.writer.visu
  reader : s'.reader = s.reader
  read : s'.read = s.read
  done : s'.pc.isDone = s.pc.isDone
  timeouts : s'.writer.pending.timeouts = s.writer.pending.timeouts
  pushed : s.writer.pushed <+: s'.writer.pushed
  answers : s.answers <+: s'.answers

theorem isDone_next (o : Outgoing) : (Writer.next o).isDone = false := by
  cases o <;> rfl

theorem visu_prepareCommand (env : WriterEnv C) (now : Instant) (cmd : Str) (resp : Option Waiter)
    (w : WriterState) : (Writer.prepareCommand env now cmd resp w).2.visu = w.visu := by
  unfold Writer.prepareCommand
  split
  · rfl
  · rfl

theorem visu_onWriterMsg (env : WriterEnv C) (now : Instant) (msg : WriterMsg) (w : WriterState) :
    (Writer.onWriterMsg env now msg w).2.visu = w.visu := by
  cases msg with
  | command cmd resp => exact visu_prepareCommand env now cmd resp w
  | _ => rfl

theorem visu_onKeepaliveTick (env : WriterEnv C) (now : Instant) (w : WriterState) :
    (Writer.onKeepaliveTick env now w).2.visu = w.visu := by
  unfold Writer.onKeepaliveTick
  split
  · rfl
  · rfl

theorem decided_still {env : WriterEnv C} {s : Session σ} {d : Outgoing × WriterState} {e : Option PendingEntry}
    (commands : List IoCommand) (out : List WriterMsg) (hpc : s.pc.isDone = false)
    (hv : d.2.visu = s.writer.visu) (h : Decision env s.writer d.2 d.1 e) :
    Still s ({ s with commands, out }.decided d) :=
  ⟨hv, Eq.refl _, Eq.refl _, (isDone_next d.1).trans hpc.symm, h.timeouts, ⟨_, h.pushed.symm⟩, List.prefix_refl _⟩

section

variable [TokenStore σ] (env : WriterEnv C) (P : Parsers)

theorem request_still (now : Instant) (kill : KillStep) (cmd : Str) {s : Session σ}
    (hpc : s.pc.isDone = false) : Still s (request env now kill cmd s) := by
  obtain ⟨e, hdec, -⟩ := Writer.prepareCommand_decision env now cmd (some s.waiters.length) s.writer
  have hv := visu_prepareCommand env now cmd (some s.waiters.length) s.writer
  simp only [request]
  generalize Writer.prepareCommand env now cmd (some s.waiters.length) s.writer = d at hdec hv ⊢
  obtain ⟨o, w⟩ := d
  cases o with
  | text t => exact ⟨hv, Eq.refl _, Eq.refl _, hpc.symm, hdec.timeouts, ⟨_, hdec.pushed.symm⟩, List.prefix_refl _⟩
  | _ => exact ⟨hv, Eq.refl _, Eq.refl _, hpc.symm, hdec.timeouts, ⟨_, hdec.pushed.symm⟩, List.prefix_refl _⟩

theorem step_still {s s' : Session σ} {l : Label} (hl : l.isPlain = true)
    (h : step env P s l = some s') : Still s s' := by
  cases l with
  | takeCommand now => cases hl
  | expire now => cases hl
  | finish => cases hl
  | resolve => cases hl
  | release => cases hl
  | flush => cases hl
  | complete => cases hl
  | takeOut now =>
    obtain ⟨msg, out, hpc, -, rfl⟩ := step_takeOut_inv env P h
    obtain ⟨e, hdec, -⟩ := Writer.onWriterMsg_decision env now msg s.writer
    exact decided_still s.commands out (by rw [hpc]; rfl) (visu_onWriterMsg env now msg s.writer) hdec
  | keepaliveTick now =>
    obtain ⟨hpc, rfl⟩ := step_keepaliveTick_inv env P h
    exact decided_still s.commands s.out (by rw [hpc]; rfl) (visu_onKeepaliveTick env now s.writer)
      (Writer.onKeepaliveTick_decision env now s.writer)
  | gracefulClose now =>
    obtain ⟨hpc, hs'⟩ := step_gracefulClose_inv env P h
    have hd : s.pc.isDone = false := by rw [hpc]; rfl
    rcases hs' with rfl | rfl | rfl
    · exact ⟨rfl, rfl, rfl, hd.symm, rfl, List.prefix_refl _, List.prefix_refl _⟩
    · exact ⟨rfl, rfl, rfl, hd.symm, rfl, List.prefix_refl _, List.prefix_refl _⟩
    · exact request_still env now _ _ hd
  | answered now =>
    obtain ⟨kill, waiter, hpc, hs'⟩ := step_answered_inv env P h
    have hd : s.pc.isDone = false := by rw [hpc]; rfl
    rcases hs' with rfl | ⟨token, hash, -, rfl⟩
    · exact ⟨rfl, rfl, rfl, hd.symm, rfl, List.prefix_refl _, List.prefix_refl _⟩
    · exact request_still env now _ _ hd
  | serve payload =>
    simp only [step] at h
    split at h
    · cases h
      exact ⟨rfl, rfl, rfl, rfl, rfl, List.prefix_refl _, List.prefix_append _ _⟩
    · cases h
  -- the others move the writer on, or send into a channel
  | _ =>
    simp only [step] at h
    repeat' split at h
    all_goals
      first
      | cases h; exact ⟨rfl, rfl, rfl, by simp only [killed, *]; rfl, rfl, List.prefix_refl _, List.prefix_refl _⟩
      | cases h; exact ⟨rfl, rfl, rfl, rfl, rfl, List.prefix_refl _, List.prefix_refl _⟩
      | cases h

end

/-- The number of the answer the reader is at. -/
def position (s : Session σ) : Nat :=
  match s.reader with
  | .resolved _ _ answer => answer
  | _ => s.read

variable {env : WriterEnv C}

/-- Without expiry the entries that wait are those whose answers the reader has
not taken. -/
theorem Inv.entries_eq {s : Session σ} (hs : Inv env s) (hd : s.pc.isDone = false)
    (ht : s.writer.pending.timeouts = 0) : s.writer.pending.entries = s.writer.pushed.drop s.read := by
  obtain ⟨f, hf⟩ := hs.exchange.fifo
  have hlag : f.removed = f.answered := f.lag_eq_zero_iff.mp (hf.lag hd ht)
  have he : s.writer.pending.entries = f.queue := hf.entries
  rw [he, Fifo.queue, hlag, hf.answered, hf.issued]
  rfl

theorem Inv.not_done {s : Session σ} (hs : Inv env s) {e : PendingEntry} {rest : List PendingEntry}
    (he : s.writer.pending.entries = e :: rest) : s.pc.isDone = false := by
  cases hd : s.pc.isDone with
  | false => rfl
  | true =>
    have hnil : s.writer.pending.entries = [] := (hs.exchange.done hd).2
    rw [hnil] at he
    cases he

end Session

end Lox
