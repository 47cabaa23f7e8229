import LoxWebsocket.Client.SessionSteps
import LoxWebsocket.Client.Refresh

/-!
# The write half of a connection

The writer sends every frame with `write_frame`, which gives a write up after a
while. `WriteHalf` is a session with the uses of the write half so far: the
frames with their results, and the flush after the close frame.

In a run in which writes time out only in the writer's loop, nothing uses the
write half after that (`write_timeout_terminal`): the loop abandons the session.
The graceful close does not: it sends the close frame after a request that timed
out (`close_after_timeout`), and flushes after a close frame that did. So a run
to the end of the writer that leaves the write half alone is one without such
timeouts.
-/

namespace Lox

inductive WriteResult
  | done
  | failed
  | timedOut
  deriving DecidableEq

/-- A use of the write half. -/
inductive WriteUse
  | frame (r : WriteResult)
  | flush
  deriving DecidableEq

/-- At a write of the loop. -/
def WriterPc.inLoop : WriterPc → Bool
  | .writeText _ | .writeControl _ _ => true
  | _ => false

/-- After the last write. -/
def WriterPc.isOver : WriterPc → Bool
  | .finish | .done => true
  | _ => false

/-- At a write, or after the last. -/
def WriterPc.isBusy : WriterPc → Bool
  | .writeText _ | .writeControl _ _ | .request _ _ _ | .writeClose | .finish | .done => true
  | _ => false

theorem WriterPc.isBusy_of_isOver {pc : WriterPc} (h : pc.isOver = true) : pc.isBusy = true := by
  cases pc <;> first | rfl | cases h

namespace Session

variable {C : Crates} {σ : Type} [TokenStore σ] (env : WriterEnv C) (P : Parsers)

def Label.isWrite : Label → Bool
  | .written | .writeFailed _ => true
  | _ => false

/-- Nothing but its result takes the writer on from a write. -/
theorem step_busy {s s' : Session σ} {l : Label} (hl : l.isWrite = false) (hb : s.pc.isBusy = true)
    (h : step env P s l = some s') : s'.pc = s.pc ∨ s.pc = .finish ∧ s'.pc = .done := by
  cases l with
  | written => cases hl
  | writeFailed _ => cases hl
  | finish =>
    obtain ⟨hpc, rfl⟩ := step_finish_inv env P h
    exact .inr ⟨hpc, rfl⟩
  | _ =>
    simp only [step] at h
    repeat' split at h
    all_goals
      first
      | cases h; done
      | cases h; exact .inl rfl
      | simp only [*, WriterPc.isBusy, Bool.false_eq_true] at hb

/-- A frame has been written: not after the last. -/
theorem step_written_pc {s s' : Session σ} (h : step env P s .written = some s') :
    s.pc.isOver = false ∧ (s.pc = .writeClose → s'.pc = .finish) := by
  simp only [step] at h
  split at h
  all_goals cases h
  all_goals simp [*, WriterPc.isOver]

/-- The loop ends at a failed write, the graceful close goes on. -/
theorem step_writeFailed_pc {s s' : Session σ} {arrived : Bool} (h : step env P s (.writeFailed arrived) = some s') :
    s.pc.isOver = false ∧ (s.pc = .writeClose → s'.pc = .finish) ∧
      (s.pc.inLoop = true ∧ s'.pc = .finish ∨ s.pc = .writeClose ∨ s.pc.inLoop = false ∧ s'.pc = .writeClose) := by
  simp only [step] at h
  split at h
  all_goals cases h
  all_goals simp [*, WriterPc.isOver, WriterPc.inLoop, killed]

end Session

/-! ## Uses of the write half -/

/-- Nothing comes after a write that timed out. -/
def Terminal (uses : List WriteUse) : Prop := ∀ pre post, uses = pre ++ .frame .timedOut :: post → post = []

theorem terminal_append {l m : List WriteUse} (hm : m ≠ []) :
    Terminal (l ++ m) ↔ .frame .timedOut ∉ l ∧ Terminal m := by
  constructor
  · intro h
    refine ⟨fun hl => ?_, fun pre post hpost => ?_⟩
    · obtain ⟨pre, post, rfl⟩ := List.append_of_mem hl
      have hpost := h pre (post ++ m) (by rw [List.append_assoc, List.cons_append])
      exact hm (List.append_eq_nil_iff.mp hpost).2
    · exact h (l ++ pre) post (by rw [hpost, List.append_assoc])
  · rintro ⟨hl, h⟩ pre post heq
    rcases List.append_eq_append_iff.mp heq with ⟨c, -, hpost⟩ | ⟨c, rfl, hc⟩
    · exact h c post hpost
    · cases c with
      | nil => exact h [] post hc.symm
      | cons x c =>
        rw [List.cons_append, List.cons.injEq] at hc
        exact absurd (by rw [← hc.1]; simp) hl

theorem terminal_singleton (use : WriteUse) : Terminal [use] := by
  intro pre post h
  cases pre with
  | nil => exact (List.cons.inj h).2.symm
  | cons x pre =>
    have hnil := (List.cons.inj h).2
    simp at hnil

structure WriteHalf (σ : Type) where
  session : Session σ
  uses : List WriteUse

namespace WriteHalf

inductive Label
  | step (l : Session.Label)
  /-- A write that was given up, after its text had arrived or before. -/
  | timedOut (arrived : Bool)

/-- For the session a write that timed out is one that failed. -/
def Label.session : Label → Session.Label
  | .step l => l
  | .timedOut arrived => .writeFailed arrived

def Label.result : Label → Option WriteResult
  | .step .written => some .done
  | .step (.writeFailed _) => some .failed
  | .step _ => none
  | .timedOut _ => some .timedOut

/-- The uses a step makes: the frame, and the flush after the close frame
whatever came of it. -/
def usesAt (pc : WriterPc) : Option WriteResult → List WriteUse
  | none => []
  | some r =>
    match pc with
    | .writeClose => [.frame r, .flush]
    | _ => [.frame r]

variable {C : Crates} {σ : Type} [TokenStore σ] (env : WriterEnv C) (P : Parsers)

def init (salt : SaltState) (pos : Pos) (shared : SharedState σ) : WriteHalf σ := ⟨.init salt pos shared, []⟩

def step (s : WriteHalf σ) (l : Label) : Option (WriteHalf σ) :=
  (Session.step env P s.session l.session).map (⟨·, s.uses ++ usesAt s.session.pc l.result⟩)

/-- A write times out only in the writer's loop. -/
def InLoop (s : WriteHalf σ) (l : Label) : Prop := l.result = some .timedOut → s.session.pc.inLoop = true

/-- No use after a write that timed out, and none to come. -/
structure Abandons (s : WriteHalf σ) : Prop where
  terminal : Terminal s.uses
  ended : .frame .timedOut ∈ s.uses → s.session.pc.isOver = true

variable {env P}

theorem usesAt_ne_nil (pc : WriterPc) (r : WriteResult) : usesAt pc (some r) ≠ [] := by
  cases pc <;> exact List.cons_ne_nil _ _

theorem mem_usesAt {pc : WriterPc} {r : WriteResult} : .frame .timedOut ∈ usesAt pc (some r) ↔ r = .timedOut := by
  cases pc <;> simp [usesAt, eq_comm]

theorem terminal_usesAt {pc : WriterPc} {r : WriteResult} :
    Terminal (usesAt pc (some r)) ↔ (r = .timedOut → pc ≠ .writeClose) := by
  by_cases hpc : pc = .writeClose
  · subst hpc
    have huses : usesAt .writeClose (some r) = [.frame r] ++ [.flush] := rfl
    rw [huses, terminal_append (List.cons_ne_nil _ _)]
    simp [terminal_singleton, eq_comm]
  · have huses : usesAt pc (some r) = [.frame r] := by
      cases pc <;> first | rfl | exact absurd rfl hpc
    rw [huses]
    exact iff_of_true (terminal_singleton _) fun _ => hpc

/-- A step that leaves the write half alone. -/
structure Rests (s : WriteHalf σ) (l : Label) (s' : WriteHalf σ) : Prop where
  result : l.result = none
  uses : s'.uses = s.uses
  pc : s.session.pc.isBusy = true →
    s'.session.pc = s.session.pc ∨ s.session.pc = .finish ∧ s'.session.pc = .done

/-- A step that uses it: a write with the result `r`. -/
structure Writes (s : WriteHalf σ) (l : Label) (r : WriteResult) (s' : WriteHalf σ) : Prop where
  result : l.result = some r
  uses : s'.uses = s.uses ++ usesAt s.session.pc (some r)
  notOver : s.session.pc.isOver = false
  close : s.session.pc = .writeClose → s'.session.pc = .finish
  timedOut : r = .timedOut → s.session.pc.inLoop = true ∧ s'.session.pc = .finish ∨
    s.session.pc = .writeClose ∨ s.session.pc.inLoop = false ∧ s'.session.pc = .writeClose

theorem step_inv {s s' : WriteHalf σ} {l : Label} (h : step env P s l = some s') :
    Rests s l s' ∨ ∃ r, Writes s l r s' := by
  obtain ⟨session, hs, rfl⟩ := Option.map_eq_some_iff.mp h
  cases l with
  | timedOut arrived =>
    obtain ⟨hover, hclose, hpc⟩ := Session.step_writeFailed_pc env P hs
    exact .inr ⟨.timedOut, rfl, rfl, hover, hclose, fun _ => hpc⟩
  | step l =>
    cases l with
    | written =>
      obtain ⟨hover, hclose⟩ := Session.step_written_pc env P hs
      exact .inr ⟨.done, rfl, rfl, hover, hclose, (nomatch ·)⟩
    | writeFailed arrived =>
      obtain ⟨hover, hclose, -⟩ := Session.step_writeFailed_pc env P hs
      exact .inr ⟨.failed, rfl, rfl, hover, hclose, (nomatch ·)⟩
    | _ => exact .inl ⟨rfl, List.append_nil _, fun hb => Session.step_busy env P rfl hb hs⟩

/-! ## Timeouts in the loop only -/

theorem abandons_step {s s' : WriteHalf σ} {l : Label} (hc : InLoop s l) (hs : Abandons s)
    (h : step env P s l = some s') : Abandons s' := by
  rcases step_inv h with hq | ⟨r, hw⟩
  · refine ⟨hq.uses ▸ hs.terminal, fun hm => ?_⟩
    have hold := hs.ended (hq.uses ▸ hm)
    rcases hq.pc (WriterPc.isBusy_of_isOver hold) with hsame | ⟨-, hdone⟩
    · rw [hsame, hold]
    · rw [hdone]; rfl
  · have hnone : .frame .timedOut ∉ s.uses := fun hm => by
      have hover := hw.notOver
      rw [hs.ended hm] at hover
      cases hover
    have hloop : r = .timedOut → s.session.pc.inLoop = true := fun ht => hc (ht ▸ hw.result)
    constructor
    · rw [hw.uses, terminal_append (usesAt_ne_nil _ _), terminal_usesAt]
      refine ⟨hnone, fun ht hclose => ?_⟩
      rw [hclose] at hloop
      cases hloop ht
    · intro hm
      rw [hw.uses, List.mem_append, mem_usesAt] at hm
      have ht := hm.resolve_left hnone
      rcases hw.timedOut ht with ⟨-, hfinish⟩ | hclose | ⟨hout, -⟩
      · rw [hfinish]; rfl
      · rw [hw.close hclose]; rfl
      · rw [hloop ht] at hout
        cases hout

/-- After a write that timed out the writer is at the close frame at the
earliest. -/
def Closing (s : WriteHalf σ) : Prop :=
  .frame .timedOut ∈ s.uses → s.session.pc = .writeClose ∨ s.session.pc.isOver = true

theorem closing_step {s s' : WriteHalf σ} {l : Label} (hs : Closing s) (h : step env P s l = some s') :
    Closing s' := by
  intro hm
  rcases step_inv h with hq | ⟨r, hw⟩
  · rcases hs (hq.uses ▸ hm) with hclose | hover
    · rcases hq.pc (by rw [hclose]; rfl) with hsame | ⟨hfinish, -⟩
      · exact .inl (hsame.trans hclose)
      · rw [hclose] at hfinish
        cases hfinish
    · rcases hq.pc (WriterPc.isBusy_of_isOver hover) with hsame | ⟨-, hdone⟩
      · exact .inr (by rw [hsame, hover])
      · exact .inr (by rw [hdone]; rfl)
  · rw [hw.uses, List.mem_append, mem_usesAt] at hm
    rcases hm with hold | ht
    · rcases hs hold with hclose | hover
      · exact .inr (by rw [hw.close hclose]; rfl)
      · exact absurd hover (by rw [hw.notOver]; exact Bool.false_ne_true)
    · rcases hw.timedOut ht with ⟨-, hfinish⟩ | hclose | ⟨-, hclose⟩
      · exact .inr (by rw [hfinish]; rfl)
      · exact .inr (by rw [hw.close hclose]; rfl)
      · exact .inl hclose

theorem terminal_of_notMem {uses : List WriteUse} (h : .frame .timedOut ∉ uses) : Terminal uses :=
  fun pre post heq => absurd (by rw [heq]; simp) h

theorem abandons_of_step {s s' : WriteHalf σ} {l : Label} (hs : Closing s) (h : step env P s l = some s')
    (hs' : Abandons s') : Abandons s ∧ InLoop s l := by
  rcases step_inv h with hq | ⟨r, hw⟩
  · refine ⟨⟨hq.uses ▸ hs'.terminal, fun hm => ?_⟩, fun ht => ?_⟩
    · refine (hs hm).resolve_left fun hclose => ?_
      have hover := hs'.ended (hq.uses ▸ hm)
      rcases hq.pc (by rw [hclose]; rfl) with hsame | ⟨hfinish, -⟩
      · rw [hsame, hclose] at hover
        cases hover
      · rw [hclose] at hfinish
        cases hfinish
    · rw [hq.result] at ht
      cases ht
  · obtain ⟨hnone, hlast⟩ := (terminal_append (usesAt_ne_nil _ _)).mp (hw.uses ▸ hs'.terminal)
    refine ⟨⟨terminal_of_notMem hnone, fun hm => absurd hm hnone⟩, fun ht => ?_⟩
    rw [hw.result] at ht
    cases ht
    rcases hw.timedOut rfl with ⟨hloop, -⟩ | hclose | ⟨-, hclose⟩
    · exact hloop
    · exact absurd hclose (terminal_usesAt.mp hlast rfl)
    · have hover := hs'.ended (by rw [hw.uses, List.mem_append, mem_usesAt]; exact .inr rfl)
      rw [hclose] at hover
      cases hover

/-- When writes time out only in the writer's loop, nothing uses the write half
after one that did; and a run to the end of the writer in which nothing does is
one in which writes time out only there. -/
theorem write_timeout_terminal {salt : SaltState} {pos : Pos} {shared : SharedState σ} {ls : List Label}
    {s : WriteHalf σ} (h : run (step env P) (init salt pos shared) ls = some s) :
    (Along (step env P) InLoop (init salt pos shared) ls → Terminal s.uses) ∧
      (s.session.pc.isOver = true → Terminal s.uses →
        Along (step env P) InLoop (init salt pos shared) ls) := by
  refine ⟨fun hc => ?_, fun hover ht => ?_⟩
  · have hinit : Abandons (init salt pos shared) := ⟨terminal_of_notMem (by simp [init]), (nomatch ·)⟩
    exact (run_inv_along abandons_step hc hinit h).terminal
  · have hinit : Closing (init salt pos shared) := (nomatch ·)
    exact (along_of_run closing_step abandons_of_step hinit h ⟨ht, fun _ => hover⟩).2

/-- A keepalive times out, and the session is abandoned. -/
theorem write_timeout_terminal_keepalive :
    ∃ s, run (step Session.sampleEnv Parsers.rejecting)
        (init SaltState.new Pos.start (⟨LxToken.default, none⟩ : SharedState (Option LxToken)))
        [.step (.keepaliveTick 0), .timedOut false, .step .finish] = some s ∧
      s.uses = [.frame .timedOut] ∧ Terminal s.uses := by
  have hc : Along (step Session.sampleEnv Parsers.rejecting) InLoop
      (init SaltState.new Pos.start (⟨LxToken.default, none⟩ : SharedState (Option LxToken)))
      [.step (.keepaliveTick 0), .timedOut false, .step .finish] :=
    .cons (nomatch ·) rfl (.cons (fun _ => rfl) rfl (.cons (nomatch ·) rfl trivial))
  exact ⟨_, rfl, rfl, (write_timeout_terminal rfl).1 hc⟩

/-- A stop: `getkey` times out, and the close frame is sent after it and the
write half flushed. -/
theorem close_after_timeout :
    ∃ s, run (step Session.sampleEnv Parsers.rejecting)
        (init SaltState.new Pos.start TokenRace.sampleMemory)
        [.step (.enqueue .stop), .step (.takeCommand 0), .step (.gracefulClose 0), .timedOut false,
          .step .written] = some s ∧
      s.uses = [.frame .timedOut, .frame .done, .flush] ∧ ¬ Terminal s.uses := by
  let stopped : Session (Option LxToken) :=
    { Session.init SaltState.new Pos.start TokenRace.sampleMemory with pc := .gracefulClose }
  obtain ⟨text, salt, pos, -, hprep⟩ := Writer.prepareCommand_total Session.sampleEnv 0
    sampleCrates_lawful.toTotal cmdGetKey (some 0) stopped.writer
  have hclose : Session.step Session.sampleEnv Parsers.rejecting stopped (.gracefulClose 0) =
      some (Session.request Session.sampleEnv 0 (.getkey TokenRace.sampleToken) cmdGetKey stopped) := rfl
  simp only [Session.request, stopped, Session.init, List.length_nil] at hclose hprep
  rw [hprep] at hclose
  have hstep : step Session.sampleEnv Parsers.rejecting ⟨stopped, []⟩ (.step (.gracefulClose 0)) = _ :=
    congrArg (Option.map (WriteHalf.mk · [])) hclose
  refine ⟨_, run_cons.mpr ⟨_, rfl, run_cons.mpr ⟨⟨stopped, []⟩, rfl, run_cons.mpr ⟨_, hstep, rfl⟩⟩⟩, rfl, ?_⟩
  exact fun h => List.cons_ne_nil _ _ (h [] _ rfl)

end WriteHalf

end Lox
