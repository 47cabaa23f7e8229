import LoxWebsocket.Client.SessionSteps

/-!
# The ceiling on commands in flight

`send_command` is refused when as many commands are outstanding as
`max_pending_commands` allows. Controls, the `getvisusalt` of a secured control
and the secured commands themselves take a slot of the same queue, and the
writer pushes them without a look at the ceiling.

So the queue keeps to the ceiling all along a run, the requests of the graceful
close apart, if and only if each of these is taken when there is room
(`ceiling_iff`). Two controls go over a ceiling of one (`controls_over_ceiling`).
-/

namespace Lox

variable {C : Crates}

/-- The requests made up to this one. -/
def KillStep.requests : KillStep → Nat
  | .getkey _ => 1
  | .killtoken => 2

theorem KillStep.requests_le (kill : KillStep) : kill.requests ≤ 2 := by
  cases kill
  · exact Nat.le_succ 1
  · exact Nat.le_refl 2

/-- How many requests of the graceful close may be in the queue. -/
def WriterPc.closeRequests : WriterPc → Nat
  | .request kill _ _ | .await kill _ => kill.requests
  | .writeClose | .finish | .done => 2
  | _ => 0

/-- The command that is pushed whatever the ceiling. -/
def IoCommand.unchecked (username : Str) : IoCommand → Option Str
  | .control uuid value => some ("jdev/sps/io/".toList ++ uuid ++ "/".toList ++ value)
  | .visuControl _ _ _ => some (cmdGetVisuSalt username)
  | _ => none

def WriterMsg.unchecked : WriterMsg → Option Str
  | .command cmd _ => some cmd
  | _ => none

namespace Writer

variable (env : WriterEnv C) (now : Instant)

/-- A command that can be encrypted takes a slot, and is to be written. -/
theorem prepareCommand_length (cmd : Str) (resp : Option Waiter) (w : WriterState) :
    (∃ text, (w.salt.encrypt env.world env.keys w.pos cmd).1 = .ok text ∧
        (prepareCommand env now cmd resp w).1 = .text text ∧
        (prepareCommand env now cmd resp w).2.pending.entries.length = w.pending.entries.length + 1) ∨
      (∀ text, (w.salt.encrypt env.world env.keys w.pos cmd).1 ≠ .ok text) ∧
        (prepareCommand env now cmd resp w).1 = .idle ∧
        (prepareCommand env now cmd resp w).2.pending.entries.length = w.pending.entries.length := by
  unfold prepareCommand
  rcases w.salt.encrypt env.world env.keys w.pos cmd with ⟨e | text, salt, pos⟩
  · exact .inr ⟨(fun _ h => by cases h), rfl, rfl⟩
  · exact .inl ⟨text, rfl, rfl, by simp⟩

end Writer

namespace Session

variable {σ : Type} (env : WriterEnv C)

/-- No more commands are outstanding than the ceiling allows, the requests of the
graceful close apart. -/
def Ceiling (s : Session σ) : Prop :=
  s.writer.pending.entries.length ≤ env.cfg.maxPending + s.pc.closeRequests

/-- The command a step pushes whatever the ceiling. -/
def unchecked (s : Session σ) : Label → Option Str
  | .takeCommand _ => s.commands.head?.bind (·.unchecked env.cfg.username)
  | .takeOut _ => s.out.head?.bind WriterMsg.unchecked
  | _ => none

/-- Such a command is taken when there is room for it, or cannot be encrypted. -/
def Below (s : Session σ) (l : Label) : Prop :=
  ∀ cmd text, unchecked env s l = some cmd →
    (s.writer.salt.encrypt env.world env.keys s.writer.pos cmd).1 = .ok text →
    s.writer.pending.entries.length < env.cfg.maxPending

/-! ## Steps that take nothing -/

/-- Each slot taken is one of a request of the graceful close. -/
def NoMore (s s' : Session σ) : Prop :=
  s'.writer.pending.entries.length + s.pc.closeRequests ≤ s.writer.pending.entries.length + s'.pc.closeRequests

theorem NoMore.ceiling {s s' : Session σ} (h : NoMore s s') (hs : Ceiling env s) : Ceiling env s' := by
  unfold NoMore at h
  unfold Ceiling at *
  omega

def Label.isTake : Label → Bool
  | .takeCommand _ | .takeOut _ => true
  | _ => false

section

variable [TokenStore σ] (P : Parsers)

theorem request_noMore (now : Instant) {kill : KillStep} (cmd : Str) {s : Session σ}
    (hpc : s.pc.closeRequests + 1 = kill.requests) : NoMore s (request env now kill cmd s) := by
  have hlen := Writer.prepareCommand_length env now cmd (some s.waiters.length) s.writer
  have hle := kill.requests_le
  simp only [NoMore, request]
  generalize Writer.prepareCommand env now cmd (some s.waiters.length) s.writer = d at hlen ⊢
  obtain ⟨o, w⟩ := d
  rcases hlen with ⟨text, -, ho, hlen⟩ | ⟨-, ho, hlen⟩
  · cases ho
    change w.pending.entries.length + s.pc.closeRequests ≤ s.writer.pending.entries.length + kill.requests
    simp only at hlen
    omega
  · cases ho
    change w.pending.entries.length + s.pc.closeRequests ≤ s.writer.pending.entries.length + 2
    simp only at hlen
    omega

theorem step_noMore {s s' : Session σ} {l : Label} (hl : l.isTake = false) (h : step env P s l = some s') :
    NoMore s s' := by
  cases l with
  | takeCommand now => cases hl
  | takeOut now => cases hl
  | expire now =>
    obtain ⟨hpc, rfl⟩ := step_expire_inv env P h
    have hle : ((s.writer.pending.expire now).2.1.entries).length ≤ s.writer.pending.entries.length := by
      rw [(PendingQueue.expire_entries _ _).2.1, List.length_drop]
      exact Nat.sub_le _ _
    unfold NoMore
    rw [hpc]
    exact hle
  | finish =>
    obtain ⟨hpc, rfl⟩ := step_finish_inv env P h
    unfold NoMore
    rw [hpc]
    exact Nat.add_le_add_right (Nat.zero_le _) _
  | keepaliveTick now =>
    obtain ⟨hpc, rfl⟩ := step_keepaliveTick_inv env P h
    have hentries := (Writer.onKeepaliveTick_decision env now s.writer).entries
    unfold NoMore decided
    rw [hpc, hentries]
    simp [WriterPc.closeRequests]
  | gracefulClose now =>
    obtain ⟨hpc, rfl | rfl | rfl⟩ := step_gracefulClose_inv env P h
    · simp [NoMore, killed, hpc, WriterPc.closeRequests]
    · simp [NoMore, hpc, WriterPc.closeRequests]
    · exact request_noMore env now cmdGetKey (by rw [hpc]; rfl)
  | answered now =>
    obtain ⟨kill, waiter, hpc, rfl | ⟨token, hash, rfl, rfl⟩⟩ := step_answered_inv env P h
    · simp [NoMore, killed, hpc, WriterPc.closeRequests, kill.requests_le]
    · exact request_noMore env now _ (by rw [hpc]; rfl)
  | resolve =>
    obtain ⟨-, payload, -, ⟨pending, -, hq, rfl⟩ | ⟨e, rest, r, pending, he, -, -, hq, rfl⟩⟩ := step_resolve_inv env P h
    · simp only [NoMore, hq, Nat.le_refl]
    · simp only [NoMore, hq, he, List.length_cons]
      omega
  | release =>
    obtain ⟨r, payload, answer, -, ⟨-, rfl⟩ | ⟨-, rfl⟩⟩ := step_release_inv env P h
    · exact Nat.le_refl _
    · exact Nat.le_refl _
  | flush =>
    obtain ⟨cmd, cmds, resp, payload, answer, -, ⟨-, rfl⟩ | ⟨-, rfl⟩⟩ := step_flush_inv env P h
    · exact Nat.le_refl _
    · exact Nat.le_refl _
  | complete =>
    obtain ⟨resp, payload, answer, completed, -, rfl⟩ := step_complete_inv env P h
    exact Nat.le_refl _
  -- the others move the writer on, or send into a channel
  | _ =>
    simp only [step] at h
    repeat' split at h
    all_goals
      first
      | cases h; done
      | cases h; exact Nat.le_refl _
      | cases h; simp [*, NoMore, killed, WriterPc.closeRequests, KillStep.requests_le]

/-! ## Steps that take -/

omit [TokenStore σ] in
/-- A command that is pushed whatever the ceiling keeps to it if there is
room. -/
theorem prepared_ceiling (now : Instant) (cmd : Str) (resp : Option Waiter) (s : Session σ) {w : WriterState}
    (hle : w.pending.entries.length ≤ env.cfg.maxPending) :
    Ceiling env (s.decided (Writer.prepareCommand env now cmd resp w)) ↔
      ∀ text, (w.salt.encrypt env.world env.keys w.pos cmd).1 = .ok text →
        w.pending.entries.length < env.cfg.maxPending := by
  have hlen := Writer.prepareCommand_length env now cmd resp w
  unfold Ceiling decided
  rcases hlen with ⟨text, hok, ho, hlen⟩ | ⟨herr, ho, hlen⟩
  · simp only [ho, hlen]
    exact ⟨fun h _ _ => h, fun h => h text hok⟩
  · simp only [ho, hlen]
    exact iff_of_true hle fun text hok => absurd hok (herr text)

omit [TokenStore σ] in
/-- A decision that pushes nothing keeps to the ceiling. -/
theorem idle_ceiling {s : Session σ} {d : Outgoing × WriterState}
    (hle : d.2.pending.entries.length ≤ env.cfg.maxPending) : Ceiling env (s.decided d) :=
  Nat.le_trans hle (Nat.le_add_right _ _)

omit [TokenStore σ] in
theorem below_iff {s : Session σ} {l : Label} {cmd : Str} (h : unchecked env s l = some cmd) :
    Below env s l ↔ ∀ text, (s.writer.salt.encrypt env.world env.keys s.writer.pos cmd).1 = .ok text →
      s.writer.pending.entries.length < env.cfg.maxPending := by
  constructor
  · exact fun hb text => hb cmd text h
  · intro hb cmd' text h'
    rw [h] at h'
    cases h'
    exact hb text

omit [TokenStore σ] in
theorem below_of_none {s : Session σ} {l : Label} (h : unchecked env s l = none) : Below env s l := by
  intro cmd text h'
  rw [h] at h'
  cases h'

theorem takeCommand_ceiling {s s' : Session σ} {now : Instant} (hs : Ceiling env s)
    (h : step env P s (.takeCommand now) = some s') : Ceiling env s' ↔ Below env s (.takeCommand now) := by
  obtain ⟨c, commands, hpc, hc, rfl⟩ := step_takeCommand_inv env P h
  have hle : s.writer.pending.entries.length ≤ env.cfg.maxPending := by
    rw [Ceiling, hpc] at hs
    exact hs
  have hun : unchecked env s (.takeCommand now) = c.unchecked env.cfg.username := by
    rw [unchecked, hc]
    rfl
  cases c with
  | control uuid value => exact (prepared_ceiling env now _ none _ hle).trans (below_iff env hun).symm
  | visuControl uuid value visuPw =>
    exact (prepared_ceiling env now _ none _ (w := { s.writer with visu := s.writer.visu.push ⟨uuid, value, visuPw⟩ })
      hle).trans (below_iff env hun).symm
  | encrypted cmd resp =>
    refine iff_of_true ?_ (below_of_none env hun)
    simp only [Writer.onIoCommand]
    split_ifs with hfull
    · exact idle_ceiling env hle
    · exact (prepared_ceiling env now _ _ _ hle).mpr fun _ _ => Nat.lt_of_not_le hfull
  | dropSession => exact iff_of_true (idle_ceiling env hle) (below_of_none env hun)
  | stop => exact iff_of_true (idle_ceiling env hle) (below_of_none env hun)

theorem takeOut_ceiling {s s' : Session σ} {now : Instant} (hs : Ceiling env s)
    (h : step env P s (.takeOut now) = some s') : Ceiling env s' ↔ Below env s (.takeOut now) := by
  obtain ⟨msg, out, hpc, hout, rfl⟩ := step_takeOut_inv env P h
  have hle : s.writer.pending.entries.length ≤ env.cfg.maxPending := by
    rw [Ceiling, hpc] at hs
    exact hs
  have hun : unchecked env s (.takeOut now) = msg.unchecked := by
    rw [unchecked, hout]
    rfl
  cases msg with
  | command cmd resp => exact (prepared_ceiling env now cmd resp _ hle).trans (below_iff env hun).symm
  | obligated opcode payload => exact iff_of_true (idle_ceiling env hle) (below_of_none env hun)
  | shutdown => exact iff_of_true (idle_ceiling env hle) (below_of_none env hun)

theorem step_ceiling {s s' : Session σ} {l : Label} (hs : Ceiling env s) (h : step env P s l = some s') :
    Ceiling env s' ↔ Below env s l := by
  cases l with
  | takeCommand now => exact takeCommand_ceiling env P hs h
  | takeOut now => exact takeOut_ceiling env P hs h
  | _ => exact iff_of_true ((step_noMore env P rfl h).ceiling env hs) (below_of_none env rfl)

/-- The queue keeps to the ceiling all along a run, the requests of the graceful
close apart, if and only if the commands that are pushed whatever the ceiling are
taken when there is room. -/
theorem ceiling_iff {salt : SaltState} {pos : Pos} {shared : SharedState σ} {ls : List Label} {s : Session σ}
    (h : run (step env P) (init salt pos shared) ls = some s) :
    (∀ ls' s', ls' <+: ls → run (step env P) (init salt pos shared) ls' = some s' → Ceiling env s') ↔
      Along (step env P) (Below env) (init salt pos shared) ls :=
  forall_prefix_iff_along (fun hs h => step_ceiling env P hs h) (Nat.zero_le _) h

end

/-- A ceiling of one command. -/
def tightEnv : WriterEnv sampleCrates := ⟨sampleWorld, sampleKeys, ⟨"admin".toList, 30, 3, 1, true⟩⟩

/-- One control keeps to it. -/
theorem ceiling_iff_one_control :
    ∃ s, run (step tightEnv Parsers.rejecting) sampleStart
        [.enqueue (.control "0f1e".toList "on".toList), .takeCommand 0] = some s ∧
      s.writer.pending.entries.length = 1 ∧ Ceiling tightEnv s := by
  let queued : Session (Option LxToken) := { sampleStart with commands := [.control "0f1e".toList "on".toList] }
  obtain ⟨text, salt, pos, -, htake⟩ := step_takeControl tightEnv Parsers.rejecting sampleCrates_lawful.toTotal
    (s := queued) rfl rfl 0
  have hbelow : Along (step tightEnv Parsers.rejecting) (Below tightEnv) sampleStart
      [.enqueue (.control "0f1e".toList "on".toList), .takeCommand 0] :=
    .cons (below_of_none tightEnv rfl) rfl (.cons (fun _ _ _ _ => Nat.zero_lt_one) htake trivial)
  obtain ⟨s, hrun, hlen⟩ : ∃ s, run (step tightEnv Parsers.rejecting) sampleStart
      [.enqueue (.control "0f1e".toList "on".toList), .takeCommand 0] = some s ∧
        s.writer.pending.entries.length = 1 :=
    ⟨_, run_cons.mpr ⟨queued, rfl, run_cons.mpr ⟨_, htake, run_nil _⟩⟩, rfl⟩
  exact ⟨s, hrun, hlen, (ceiling_iff tightEnv Parsers.rejecting hrun).mpr hbelow _ s (List.prefix_refl _) hrun⟩

/-- Two controls, the first not yet answered, go over it. -/
theorem controls_over_ceiling :
    ∃ s, run (step tightEnv Parsers.rejecting) sampleStart
        [.enqueue (.control "0f1e".toList "on".toList), .enqueue (.control "0f1e".toList "off".toList),
          .takeCommand 0, .written, .expire 1, .takeCommand 2] = some s ∧
      tightEnv.cfg.maxPending = 1 ∧ s.writer.pending.entries.length = 2 ∧ ¬ Ceiling tightEnv s := by
  let queued : Session (Option LxToken) := { sampleStart with
    commands := [.control "0f1e".toList "on".toList, .control "0f1e".toList "off".toList] }
  obtain ⟨text, salt, pos, -, htake⟩ := step_takeControl tightEnv Parsers.rejecting sampleCrates_lawful.toTotal
    (s := queued) rfl rfl 0
  let entry : PendingEntry := ⟨"jdev/sps/io/0f1e/on".toList, text, none, 30⟩
  let waiting : Session (Option LxToken) := { sampleStart with
    writer := { sampleStart.writer with salt, pos, pending := ⟨[entry], 0, 0, 0⟩, pushed := [entry] }
    commands := [.control "0f1e".toList "off".toList]
    received := [text] }
  obtain ⟨text', salt', pos', -, htake'⟩ := step_takeControl tightEnv Parsers.rejecting
    sampleCrates_lawful.toTotal (s := waiting) rfl rfl 2
  refine ⟨_, run_cons.mpr ⟨_, rfl, run_cons.mpr ⟨queued, rfl, run_cons.mpr ⟨_, htake, run_cons.mpr ⟨_, rfl,
    run_cons.mpr ⟨waiting, rfl, run_cons.mpr ⟨_, htake', run_nil _⟩⟩⟩⟩⟩⟩, rfl, rfl, ?_⟩
  change ¬ 2 ≤ 1 + 0
  decide

end Session

end Lox
