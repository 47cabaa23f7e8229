import LoxWebsocket.Client.SessionSteps
import LoxWebsocket.Client.VisuAnswer

/-!
# Secured controls

`Tracked` follows a session with the number of each secured control, the
requests pushed before it was queued, and the answer it was released by. A
control leads to at most one command. The answer is to a request sent no
earlier than the control was queued if no `getvisusalt` is outstanding when a
control is queued and nothing expires (`secured_fresh`); otherwise the answer
to the previous control's request releases the newer one
(`stale_salt_released`).

`Moves` says what each step is for the controls (`step_moves`); `Inv` and
`Settled` are kept by it.
-/

namespace Lox

variable {C : Crates}

/-! ## Following the controls of a session -/

/-- A secured control that was queued, and the number of requests pushed
before. -/
structure QueuedControl where
  item : VisuPending
  since : Nat

/-- A secured command, by the number of its control and of the answer it was
released by. -/
structure SecuredCommand where
  control : Nat
  answer : Nat
  cmd : Str

/-- A session, with the secured controls queued so far, those that wait, and the
commands they have led to. -/
structure Tracked (σ : Type) where
  session : Session σ
  queued : List QueuedControl
  slot : List Nat
  secured : List SecuredCommand
  /-- The commands the reader has sent to the writer. -/
  handed : List Str

/-- The secured command of a control that an answer releases. -/
def securedBy (P : Parsers) (payload : Bytes) (item : VisuPending) : Option Str :=
  match parseKeySalt P payload with
  | .ok keySalt => securedCmd P keySalt item
  | .error _ => none

theorem flushVisu_eq (P : Parsers) (visu : VisuQueue) (payload : Bytes) :
    flushVisu P visu payload = visu.filterMap (securedBy P payload) := by
  unfold flushVisu securedBy
  cases parseKeySalt P payload <;> simp

namespace Tracked

variable {σ : Type}

def init (salt : SaltState) (pos : Pos) (shared : SharedState σ) : Tracked σ :=
  ⟨Session.init salt pos shared, [], [], [], []⟩

/-- The control with number `n`. -/
def item (t : Tracked σ) (n : Nat) : Option VisuPending := t.queued[n]?.map QueuedControl.item

/-- A control is queued in the place of the one that waits. -/
def queue (t : Tracked σ) (item : VisuPending) : Tracked σ :=
  { t with
    queued := t.queued ++ [⟨item, t.session.writer.pushed.length⟩]
    slot := t.slot.tail ++ [t.queued.length] }

/-- The commands of the waiting controls that an answer releases. -/
def released (P : Parsers) (payload : Bytes) (answer : Nat) (t : Tracked σ) : List SecuredCommand :=
  t.slot.filterMap fun n => ((t.item n).bind (securedBy P payload)).map (⟨n, answer, ·⟩)

def releaseBy (P : Parsers) (payload : Bytes) (answer : Nat) (t : Tracked σ) : Tracked σ :=
  { t with slot := [], secured := t.secured ++ t.released P payload answer }

/-- What a step of the session means for the controls. -/
def follow (P : Parsers) (t : Tracked σ) : Session.Label → Tracked σ
  | .takeCommand _ =>
    match t.session.commands with
    | .visuControl uuid value visuPw :: _ => t.queue ⟨uuid, value, visuPw⟩
    | _ => t
  | .release =>
    match t.session.reader with
    | .resolved r payload answer =>
      if releasesVisu r t.session.writer.visu then t.releaseBy P payload answer else t
    | _ => t
  | .flush =>
    match t.session.reader, t.session.pc with
    | .flushing (_ :: _) _ _ _, .done => t
    | .flushing (cmd :: _) _ _ _, _ => { t with handed := t.handed ++ [cmd] }
    | _, _ => t
  | .finish => { t with slot := [] }
  | _ => t

def step [TokenStore σ] (env : WriterEnv C) (P : Parsers) (t : Tracked σ) (l : Session.Label) :
    Option (Tracked σ) :=
  (t.session.step env P l).map fun session => { t.follow P l with session }

end Tracked

/-- The commands the reader is about to send. -/
def ReaderPc.cmds : ReaderPc → List Str
  | .flushing cmds _ _ _ => cmds
  | _ => []

/-! ## At most one command for a control -/

namespace Tracked

variable {σ : Type}

/-- The command is that of its control, hashed with the key and the salt of the
answer. -/
def Computed (P : Parsers) (t : Tracked σ) (c : SecuredCommand) : Prop :=
  ∃ item payload, t.item c.control = some item ∧ t.session.answers[c.answer]? = some payload ∧
    securedBy P payload item = some c.cmd

structure Inv (P : Parsers) (t : Tracked σ) : Prop where
  visu : t.session.writer.visu.map some = t.slot.map t.item
  lt : ∀ n ∈ t.secured.map SecuredCommand.control ++ t.slot, n < t.queued.length
  nodup : (t.secured.map SecuredCommand.control ++ t.slot).Nodup
  handed : (t.handed ++ t.session.reader.cmds).Sublist (t.secured.map SecuredCommand.cmd)
  computed : ∀ c ∈ t.secured, t.Computed P c
  reader : ∀ r payload answer, t.session.reader = .resolved r payload answer →
    t.session.answers[answer]? = some payload

theorem inv_init (P : Parsers) (salt : SaltState) (pos : Pos) (shared : SharedState σ) :
    Inv P (init salt pos shared) where
  visu := rfl
  lt n h := by cases h
  nodup := List.nodup_nil
  handed := List.Sublist.refl _
  computed c h := by cases h
  reader r payload answer h := by cases h

theorem Inv.still {P : Parsers} {t : Tracked σ} (ht : Inv P t) {s' : Session σ} (h : t.session.Still s') :
    Inv P { t with session := s' } where
  visu := (congrArg (List.map some) h.visu).trans ht.visu
  lt := ht.lt
  nodup := ht.nodup
  handed := by simpa only [h.reader] using ht.handed
  computed c hc := by
    obtain ⟨item, payload, hi, hp, hcmd⟩ := ht.computed c hc
    exact ⟨item, payload, hi, getElem?_of_extends h.answers hp, hcmd⟩
  reader r payload answer hr :=
    getElem?_of_extends h.answers (ht.reader r payload answer (h.reader ▸ hr))

/-- A control keeps its number. -/
theorem item_append {t : Tracked σ} {n : Nat} (hn : n < t.queued.length) (l : List QueuedControl) :
    item { t with queued := t.queued ++ l } n = t.item n := by
  simp only [item, List.getElem?_append_left hn]

theorem Inv.queue {P : Parsers} {t : Tracked σ} (ht : Inv P t) (x : VisuPending) :
    Inv P { t.queue x with
      session := { t.session with writer := { t.session.writer with visu := t.session.writer.visu.push x } } } := by
  have hlt := ht.lt
  have hnew : ∀ n ∈ t.secured.map SecuredCommand.control ++ t.slot, n ≠ t.queued.length :=
    fun n hn => Nat.ne_of_lt (hlt n hn)
  have htail : ∀ n ∈ t.slot.tail, n ∈ t.secured.map SecuredCommand.control ++ t.slot :=
    fun n hn => List.mem_append_right _ (List.mem_of_mem_tail hn)
  refine ⟨?_, fun n hn => ?_, ?_, ?_, fun c hc => ?_, fun r payload answer h => ?_⟩
  · have hold : t.slot.tail.map (t.queue x).item = t.slot.tail.map t.item :=
      List.map_congr_left fun n hn => item_append (hlt n (htail n hn)) _
    have hlast : (t.queue x).item t.queued.length = some x := by simp [item, Tracked.queue]
    show (t.session.writer.visu.tail ++ [x]).map some = (t.slot.tail ++ [t.queued.length]).map (t.queue x).item
    rw [List.map_append, List.map_append, hold, List.map_tail, List.map_tail, ht.visu, List.map_singleton,
      List.map_singleton, hlast]
  · simp only [Tracked.queue, List.length_append, List.length_singleton] at hn ⊢
    rw [← List.append_assoc, List.mem_append, List.mem_singleton] at hn
    rcases hn with hn | rfl
    · have := hlt n ((List.mem_append.mp hn).elim (List.mem_append_left _) (htail n))
      omega
    · omega
  · have hsub : (t.secured.map SecuredCommand.control ++ t.slot.tail).Sublist
        (t.secured.map SecuredCommand.control ++ t.slot) :=
      (List.Sublist.refl _).append (List.tail_sublist _)
    show (t.secured.map SecuredCommand.control ++ (t.slot.tail ++ [t.queued.length])).Nodup
    rw [← List.append_assoc]
    refine List.nodup_append.mpr ⟨hsub.nodup ht.nodup, List.pairwise_singleton _ _, fun n hn m hm => ?_⟩
    rw [List.mem_singleton.mp hm]
    exact hnew n (hsub.subset hn)
  · exact ht.handed
  · obtain ⟨i, payload, hi, hp, hcmd⟩ := ht.computed c hc
    refine ⟨i, payload, ?_, hp, hcmd⟩
    exact (item_append (hlt _ (List.mem_append_left _ (List.mem_map_of_mem hc))) _).trans hi
  · exact ht.reader r payload answer h

theorem mem_released {P : Parsers} {t : Tracked σ} {payload : Bytes} {answer : Nat} {c : SecuredCommand} :
    c ∈ t.released P payload answer ↔ c.control ∈ t.slot ∧ c.answer = answer ∧
      (t.item c.control).bind (securedBy P payload) = some c.cmd := by
  simp only [released, List.mem_filterMap, Option.map_eq_some_iff]
  constructor
  · rintro ⟨n, hn, cmd, hcmd, rfl⟩
    exact ⟨hn, rfl, hcmd⟩
  · rintro ⟨hn, rfl, hcmd⟩
    exact ⟨c.control, hn, c.cmd, hcmd, rfl⟩

/-- A control is released at most once. -/
theorem released_controls (P : Parsers) (t : Tracked σ) (payload : Bytes) (answer : Nat) :
    ((t.released P payload answer).map SecuredCommand.control).Sublist t.slot := by
  unfold released
  induction t.slot with
  | nil => exact List.Sublist.refl _
  | cons n slot ih =>
    rw [List.filterMap_cons]
    cases (t.item n).bind (securedBy P payload) with
    | none => exact ih.cons n
    | some cmd => exact ih.cons_cons n

/-- The commands of a release are those the reader is given to send. -/
theorem released_cmds {P : Parsers} {t : Tracked σ} (hv : t.session.writer.visu.map some = t.slot.map t.item)
    (payload : Bytes) (answer : Nat) :
    (t.released P payload answer).map SecuredCommand.cmd = flushVisu P t.session.writer.visu payload := by
  have hflush : flushVisu P t.session.writer.visu payload =
      (t.slot.map t.item).filterMap (·.bind (securedBy P payload)) := by
    rw [← hv, List.filterMap_map, flushVisu_eq]
    rfl
  rw [hflush, released, List.map_filterMap, List.filterMap_map]
  congr 1
  funext n
  simp only [Function.comp]
  cases (t.item n).bind (securedBy P payload) <;> rfl

theorem Inv.release {P : Parsers} {t : Tracked σ} (ht : Inv P t) {r : Resolved} {payload : Bytes} {answer : Nat}
    (hr : t.session.reader = .resolved r payload answer) :
    Inv P { t.releaseBy P payload answer with
      session := { t.session with
        writer := { t.session.writer with visu := [] }
        reader := .flushing (flushVisu P t.session.writer.visu payload) r.resp payload answer } } := by
  have hctl := released_controls P t payload answer
  have hsub : ((t.secured ++ t.released P payload answer).map SecuredCommand.control ++ []).Sublist
      (t.secured.map SecuredCommand.control ++ t.slot) := by
    rw [List.append_nil, List.map_append]
    exact (List.Sublist.refl _).append hctl
  refine ⟨rfl, fun n hn => ht.lt n (hsub.subset hn), hsub.nodup ht.nodup, ?_, fun c hc => ?_,
    fun _ _ _ h => by cases h⟩
  · have hh := ht.handed
    rw [hr] at hh
    simp only [releaseBy, ReaderPc.cmds, List.map_append, released_cmds ht.visu, List.append_nil] at hh ⊢
    exact hh.append (List.Sublist.refl _)
  · rcases List.mem_append.mp hc with hc | hc
    · exact ht.computed c hc
    · obtain ⟨-, hans, hcmd⟩ := mem_released.mp hc
      obtain ⟨item, hitem, hcmd⟩ := Option.bind_eq_some_iff.mp hcmd
      exact ⟨item, payload, hitem, hans ▸ ht.reader r payload answer hr, hcmd⟩

/-- The reader goes on, with no more to send than before. -/
theorem Inv.reading {P : Parsers} {t : Tracked σ} (ht : Inv P t) {s' : Session σ}
    (hv : s'.writer.visu = t.session.writer.visu) (ha : s'.answers = t.session.answers)
    (hc : s'.reader.cmds.Sublist t.session.reader.cmds)
    (hr : ∀ r payload answer, s'.reader = .resolved r payload answer →
      t.session.answers[answer]? = some payload) : Inv P { t with session := s' } where
  visu := (congrArg (List.map some) hv).trans ht.visu
  lt := ht.lt
  nodup := ht.nodup
  handed := ((List.Sublist.refl _).append hc).trans ht.handed
  computed c h := by
    obtain ⟨item, payload, hi, hp, hcmd⟩ := ht.computed c h
    exact ⟨item, payload, hi, ha ▸ hp, hcmd⟩
  reader r payload answer h := by
    rw [ha]
    exact hr r payload answer h

/-! ## The steps -/

/-- What a step is for the controls. -/
inductive Moves (P : Parsers) (t : Tracked σ) : Session.Label → Tracked σ → Prop
  | still {l : Session.Label} {s' : Session σ} (h : t.session.Still s') : Moves P t l { t with session := s' }
  | queue {now : Instant} {uuid value visuPw : Str} {commands : List IoCommand} {s' : Session σ}
      (hpc : t.session.pc = .select) (hc : t.session.commands = .visuControl uuid value visuPw :: commands)
      (h : Session.Still { t.session with
        writer := { t.session.writer with visu := t.session.writer.visu.push ⟨uuid, value, visuPw⟩ } } s') :
      Moves P t (.takeCommand now) { t.queue ⟨uuid, value, visuPw⟩ with session := s' }
  | expire {now : Instant} (hpc : t.session.pc = .expirePending) :
      Moves P t (.expire now) { t with
        session := { t.session with writer := Writer.expirePending now t.session.writer, pc := .select } }
  | unsolicited {pending : PendingQueue} (hr : t.session.reader = .idle)
      (ht : pending.timeouts = t.session.writer.pending.timeouts) :
      Moves P t .resolve { t with
        session := { t.session with writer := { t.session.writer with pending }, read := t.session.read + 1 } }
  | resolve {payload : Bytes} {e : PendingEntry} {rest : List PendingEntry} {r : Resolved} {pending : PendingQueue}
      (hr : t.session.reader = .idle) (ha : t.session.answers[t.session.read]? = some payload)
      (he : t.session.writer.pending.entries = e :: rest) (hcmd : r.plaintextCmd = e.plaintextCmd)
      (ht : pending.timeouts = t.session.writer.pending.timeouts) :
      Moves P t .resolve { t with
        session := { t.session with
          writer := { t.session.writer with pending }, read := t.session.read + 1
          reader := .resolved r payload t.session.read } }
  | release {r : Resolved} {payload : Bytes} {answer : Nat} (hr : t.session.reader = .resolved r payload answer)
      (hv : isGetVisuSalt r.plaintextCmd = true) :
      Moves P t .release { t.releaseBy P payload answer with
        session := { t.session with
          writer := { t.session.writer with visu := [] }
          reader := .flushing (flushVisu P t.session.writer.visu payload) r.resp payload answer } }
  | pass {r : Resolved} {payload : Bytes} {answer : Nat} (hr : t.session.reader = .resolved r payload answer) :
      Moves P t .release { t with
        session := { t.session with reader := .flushing [] r.resp payload answer } }
  | drop {cmds : List Str} {resp : Option Waiter} {payload : Bytes} {answer : Nat}
      (hr : t.session.reader = .flushing cmds resp payload answer) :
      Moves P t .flush { t with session := { t.session with reader := .flushing [] resp payload answer } }
  | send {cmd : Str} {cmds : List Str} {resp : Option Waiter} {payload : Bytes} {answer : Nat}
      (hr : t.session.reader = .flushing (cmd :: cmds) resp payload answer) :
      Moves P t .flush { t with
        handed := t.handed ++ [cmd]
        session := { t.session with
          out := t.session.out ++ [.command cmd none], reader := .flushing cmds resp payload answer } }
  | complete {resp : Option Waiter} {payload : Bytes} {answer : Nat} {completed : List Completion}
      (hr : t.session.reader = .flushing [] resp payload answer) :
      Moves P t .complete { t with session := { t.session with reader := .idle, completed } }
  | finish : Moves P t .finish { t with
      slot := [], session := { t.session with writer := Writer.finish t.session.writer, pc := .done } }

section

variable [TokenStore σ] (env : WriterEnv C) (P : Parsers)

theorem takeCommand_moves {t : Tracked σ} {now : Instant} {s' : Session σ}
    (h : t.session.step env P (.takeCommand now) = some s') :
    Moves P t (.takeCommand now) { t.follow P (.takeCommand now) with session := s' } := by
  obtain ⟨c, commands, hpc, hcmds, rfl⟩ := Session.step_takeCommand_inv env P h
  have hd : t.session.pc.isDone = false := by rw [hpc]; rfl
  obtain ⟨e, hdec, -⟩ := Writer.onIoCommand_decision env now c t.session.writer
  cases c with
  | visuControl uuid value visuPw =>
    simp only [follow, hcmds]
    obtain ⟨e, hdec, -⟩ := Writer.prepareCommand_decision env now (cmdGetVisuSalt env.cfg.username) none
      { t.session.writer with visu := t.session.writer.visu.push ⟨uuid, value, visuPw⟩ }
    refine .queue hpc hcmds ?_
    exact Session.decided_still (s := { t.session with
        writer := { t.session.writer with visu := t.session.writer.visu.push ⟨uuid, value, visuPw⟩ } })
      commands t.session.out hd (Session.visu_prepareCommand env now _ _ _) hdec
  | encrypted cmd resp =>
    simp only [follow, hcmds]
    refine .still (Session.decided_still commands t.session.out hd ?_ hdec)
    simp only [Writer.onIoCommand]
    split
    · rfl
    · exact Session.visu_prepareCommand env now _ _ _
  | control uuid value =>
    simp only [follow, hcmds]
    exact .still (Session.decided_still commands t.session.out hd (Session.visu_prepareCommand env now _ _ _) hdec)
  | dropSession =>
    simp only [follow, hcmds]
    exact .still (Session.decided_still commands t.session.out hd rfl hdec)
  | stop =>
    simp only [follow, hcmds]
    exact .still (Session.decided_still commands t.session.out hd rfl hdec)

theorem step_moves {t t' : Tracked σ} {l : Session.Label} (h : step env P t l = some t') : Moves P t l t' := by
  obtain ⟨s', hs, rfl⟩ := Option.map_eq_some_iff.mp h
  cases l with
  | takeCommand now => exact takeCommand_moves env P hs
  | resolve =>
    obtain ⟨hr, payload, ha, ⟨pending, ht, -, rfl⟩ | ⟨e, rest, r, pending, he, hcmd, ht, -, rfl⟩⟩ :=
      Session.step_resolve_inv env P hs
    · exact .unsolicited hr ht
    · exact .resolve hr ha he hcmd ht
  | expire now =>
    obtain ⟨hpc, rfl⟩ := Session.step_expire_inv env P hs
    exact .expire hpc
  | release =>
    obtain ⟨r, payload, answer, hr, ⟨hv, rfl⟩ | ⟨hv, rfl⟩⟩ := Session.step_release_inv env P hs
    · simp only [follow, hr, hv, if_true]
      exact .release hr (Bool.and_eq_true_iff.mp hv).1
    · simp only [follow, hr, hv]
      exact .pass hr
  | flush =>
    obtain ⟨cmd, cmds, resp, payload, answer, hr, ⟨hpc, rfl⟩ | ⟨hpc, rfl⟩⟩ := Session.step_flush_inv env P hs
    · have hf : t.follow P .flush = t := by simp only [follow, hr, hpc]
      rw [hf]
      exact .drop hr
    · have hf : t.follow P .flush = { t with handed := t.handed ++ [cmd] } := by simp only [follow, hr]
      rw [hf]
      exact .send hr
  | complete =>
    obtain ⟨resp, payload, answer, completed, hr, rfl⟩ := Session.step_complete_inv env P hs
    exact .complete hr
  | finish =>
    obtain ⟨-, rfl⟩ := Session.step_finish_inv env P hs
    exact .finish
  | _ => exact .still (Session.step_still env P rfl hs)

end

theorem inv_moves {P : Parsers} {t t' : Tracked σ} {l : Session.Label} (ht : Inv P t) (h : Moves P t l t') :
    Inv P t' := by
  cases h with
  | still h => exact ht.still h
  | queue hpc hc h => exact (ht.queue _).still h
  | expire hpc => exact ht.reading rfl rfl (List.Sublist.refl _) ht.reader
  | unsolicited hr => exact ht.reading rfl rfl (List.Sublist.refl _) ht.reader
  | resolve hr ha he hcmd =>
    refine ht.reading rfl rfl (List.nil_sublist _) fun r payload answer h => ?_
    cases h
    exact ha
  | release hr hv => exact ht.release hr
  | pass hr => exact ht.reading rfl rfl (List.nil_sublist _) fun r payload answer h => by cases h
  | drop hr => exact ht.reading rfl rfl (List.nil_sublist _) fun r payload answer h => by cases h
  | send hr =>
    have hh := ht.handed
    rw [hr] at hh
    refine ⟨ht.visu, ht.lt, ht.nodup, ?_, ht.computed, fun r payload answer h => by cases h⟩
    simpa [ReaderPc.cmds] using hh
  | complete hr => exact ht.reading rfl rfl (List.nil_sublist _) fun r payload answer h => by cases h
  | finish =>
    refine ⟨rfl, fun n hn => ht.lt n ?_, ?_, ht.handed, ht.computed, ht.reader⟩
    · rw [List.append_nil] at hn
      exact List.mem_append_left _ hn
    · rw [List.append_nil]
      exact (List.nodup_append.mp ht.nodup).1

/-! ## Fresh answers -/

variable (env : WriterEnv C)

/-- The command was hashed with the answer to a `getvisusalt` that was sent no
earlier than its control was queued. -/
def Fresh (t : Tracked σ) (c : SecuredCommand) : Prop :=
  ∃ q e, t.queued[c.control]? = some q ∧ t.session.writer.pushed[c.answer]? = some e ∧
    isGetVisuSalt e.plaintextCmd = true ∧ q.since ≤ c.answer

/-- No `getvisusalt` waits for its answer, in the queue or with the reader. -/
def NoneOutstanding (s : Session σ) : Prop :=
  (∀ e ∈ s.writer.pending.entries, isGetVisuSalt e.plaintextCmd = false) ∧
    ∀ r payload answer, s.reader = .resolved r payload answer → isGetVisuSalt r.plaintextCmd = false

/-- A control is taken only when no `getvisusalt` is outstanding, and nothing
expires. -/
def OneAtATime (t : Tracked σ) : Session.Label → Prop
  | .takeCommand _ => ∀ uuid value visuPw commands,
      t.session.commands = .visuControl uuid value visuPw :: commands → NoneOutstanding t.session
  | .expire now => ∀ e ∈ t.session.writer.pending.entries, now < e.deadline
  | _ => True

structure Settled (t : Tracked σ) : Prop where
  session : Session.Inv env t.session
  timeouts : t.session.writer.pending.timeouts = 0
  reader : ∀ r payload answer, t.session.reader = .resolved r payload answer → t.session.read = answer + 1 ∧
    ∃ e, t.session.writer.pushed[answer]? = some e ∧ e.plaintextCmd = r.plaintextCmd
  since : ∀ q ∈ t.queued, q.since ≤ t.session.writer.pushed.length
  /-- The requests before a waiting control are answered and dealt with. -/
  slot : ∀ n ∈ t.slot, ∀ q, t.queued[n]? = some q → ∀ j e, j < q.since →
    t.session.writer.pushed[j]? = some e → isGetVisuSalt e.plaintextCmd = true → j < t.session.position
  fresh : ∀ c ∈ t.secured, t.Fresh c

theorem settled_init (salt : SaltState) (pos : Pos) (shared : SharedState σ) :
    Settled env (init salt pos shared) where
  session := Session.inv_init env salt pos shared
  timeouts := rfl
  reader r payload answer h := by cases h
  since q h := by cases h
  slot n h := by cases h
  fresh c h := by cases h

variable {env}

/-- A step that queues and releases nothing, and does not go back in the
answers. -/
theorem Settled.advance {t t' : Tracked σ} (ht : Settled env t) (hs : Session.Inv env t'.session)
    (htm : t'.session.writer.pending.timeouts = t.session.writer.pending.timeouts)
    (hr : ∀ r payload answer, t'.session.reader = .resolved r payload answer →
      t'.session.read = answer + 1 ∧
        ∃ e, t'.session.writer.pushed[answer]? = some e ∧ e.plaintextCmd = r.plaintextCmd)
    (hp : t.session.writer.pushed <+: t'.session.writer.pushed)
    (hpos : t.session.position ≤ t'.session.position) (hq : t'.queued = t.queued)
    (hsec : t'.secured = t.secured) (hslot : t'.slot ⊆ t.slot) : Settled env t' where
  session := hs
  timeouts := htm.trans ht.timeouts
  reader := hr
  since q h := Nat.le_trans (ht.since q (hq ▸ h)) hp.length_le
  slot n hn q h j e hj he hv := by
    rw [hq] at h
    have hlt : j < t.session.writer.pushed.length :=
      Nat.lt_of_lt_of_le hj (ht.since q (List.mem_of_getElem? h))
    rw [getElem?_eq_of_extends hp hlt] at he
    exact Nat.lt_of_lt_of_le (ht.slot n (hslot hn) q h j e hj he hv) hpos
  fresh c hc := by
    obtain ⟨q, e, h, he, hv, hle⟩ := ht.fresh c (hsec ▸ hc)
    exact ⟨q, e, hq ▸ h, getElem?_of_extends hp he, hv, hle⟩

/-- A control is queued when no `getvisusalt` is outstanding: those pushed
before are behind the reader. -/
theorem Settled.lt_position {t : Tracked σ} (ht : Settled env t) (hpc : t.session.pc = .select)
    (hn : NoneOutstanding t.session) {j : Nat} {e : PendingEntry}
    (he : t.session.writer.pushed[j]? = some e) (hv : isGetVisuSalt e.plaintextCmd = true) :
    j < t.session.position := by
  have hentries := ht.session.entries_eq (by rw [hpc]; rfl) ht.timeouts
  have hlt : j < t.session.read := by
    by_contra hge
    have hm : e ∈ t.session.writer.pending.entries := by
      rw [hentries]
      refine List.mem_of_getElem? (i := j - t.session.read) ?_
      rw [List.getElem?_drop, Nat.add_sub_cancel' (Nat.le_of_not_lt hge), he]
    rw [hn.1 e hm] at hv
    cases hv
  unfold Session.position
  split
  · rename_i r payload answer hr
    obtain ⟨hread, e', he', hcmd⟩ := ht.reader r payload answer hr
    have hne : j ≠ answer := by
      rintro rfl
      rw [he] at he'
      cases he'
      rw [hcmd, hn.2 r payload _ hr] at hv
      cases hv
    omega
  · exact hlt

theorem Settled.queue {t : Tracked σ} (ht : Settled env t) (hpc : t.session.pc = .select)
    (hn : NoneOutstanding t.session) (x : VisuPending) {s' : Session σ} (hs : Session.Inv env s')
    (h : Session.Still { t.session with
      writer := { t.session.writer with visu := t.session.writer.visu.push x } } s') :
    Settled env { t.queue x with session := s' } := by
  have hpos : s'.position = t.session.position := by simp only [Session.position, h.reader, h.read]
  have hold : ∀ {j : Nat} {e : PendingEntry}, j < t.session.writer.pushed.length →
      s'.writer.pushed[j]? = some e → t.session.writer.pushed[j]? = some e := fun hj he => by
    rw [← he]; exact (getElem?_eq_of_extends h.pushed hj).symm
  refine ⟨hs, h.timeouts.trans ht.timeouts, fun r payload answer hr => ?_, fun q hq => ?_,
    fun n hm q hq j e hj he hv => ?_, fun c hc => ?_⟩
  · rw [h.reader] at hr
    obtain ⟨hread, e, he, hcmd⟩ := ht.reader r payload answer hr
    exact ⟨h.read.trans hread, e, getElem?_of_extends h.pushed he, hcmd⟩
  · refine Nat.le_trans ?_ h.pushed.length_le
    rcases List.mem_append.mp hq with hq | hq
    · exact ht.since q hq
    · rw [List.mem_singleton.mp hq]
  · rw [hpos]
    rcases Nat.lt_or_ge n t.queued.length with hlt | hge
    · -- a control that waited before
      have hm : n ∈ t.slot := (List.mem_append.mp hm).elim List.mem_of_mem_tail fun h =>
        absurd (List.mem_singleton.mp h) (Nat.ne_of_lt hlt)
      have hq : t.queued[n]? = some q := (List.getElem?_append_left hlt).symm.trans hq
      refine ht.slot n hm q hq j e hj (hold ?_ he) hv
      exact Nat.lt_of_lt_of_le hj (ht.since q (List.mem_of_getElem? hq))
    · have hq : [⟨x, t.session.writer.pushed.length⟩][n - t.queued.length]? = some q :=
        (List.getElem?_append_right hge).symm.trans hq
      rw [List.mem_singleton.mp (List.mem_of_getElem? hq)] at hj
      exact ht.lt_position hpc hn (hold hj he) hv
  · obtain ⟨q, e, hq, he, hv, hle⟩ := ht.fresh c hc
    exact ⟨q, e, getElem?_of_extends (List.prefix_append _ _) hq, getElem?_of_extends h.pushed he, hv, hle⟩

theorem settled_moves {P : Parsers} {t t' : Tracked σ} {l : Session.Label} (ht : Settled env t)
    (hc : OneAtATime t l) (hs : Session.Inv env t'.session) (h : Moves P t l t') : Settled env t' := by
  -- the reader holds no answer
  have hnone : ∀ {s : Session σ}, (∀ r payload answer, s.reader ≠ .resolved r payload answer) →
      ∀ r payload answer, s.reader = .resolved r payload answer → s.read = answer + 1 ∧
        ∃ e, s.writer.pushed[answer]? = some e ∧ e.plaintextCmd = r.plaintextCmd :=
    fun h r payload answer hr => absurd hr (h r payload answer)
  cases h with
  | still h =>
    refine ht.advance hs h.timeouts (fun r payload answer hr => ?_) h.pushed ?_ rfl rfl (List.Subset.refl _)
    · obtain ⟨hread, e, he, hcmd⟩ := ht.reader r payload answer (h.reader ▸ hr)
      exact ⟨h.read.trans hread, e, getElem?_of_extends h.pushed he, hcmd⟩
    · simp only [Session.position, h.reader, h.read, Nat.le_refl]
  | queue hpc hcmds h => exact ht.queue hpc (hc _ _ _ _ hcmds) _ hs h
  | expire hpc =>
    refine ht.advance hs ?_ ht.reader (List.prefix_refl _) (Nat.le_refl _) rfl rfl (List.Subset.refl _)
    simp only [Writer.expirePending, PendingQueue.expire_none hc]
  | unsolicited hr htm =>
    refine ht.advance hs htm (hnone fun r payload answer h => ?_) (List.prefix_refl _) ?_ rfl rfl
      (List.Subset.refl _)
    · rw [hr] at h
      cases h
    · simp only [Session.position, hr]
      exact Nat.le_succ _
  | resolve hr ha he hcmd htm =>
    refine ht.advance hs htm (fun r payload answer h => ?_) (List.prefix_refl _) ?_ rfl rfl (List.Subset.refl _)
    · cases h
      refine ⟨rfl, _, ?_, hcmd.symm⟩
      have hentries := ht.session.entries_eq (ht.session.not_done he) ht.timeouts
      rw [← List.head?_drop, ← hentries, he, List.head?_cons]
    · simp only [Session.position, hr]
      exact Nat.le_refl _
  | release hr hv =>
    obtain ⟨hread, e, he, hcmd⟩ := ht.reader _ _ _ hr
    refine ⟨hs, ht.timeouts, hnone fun r payload answer h => (by cases h), ht.since, fun n hn => (by cases hn),
      fun c hc => ?_⟩
    rcases List.mem_append.mp hc with hc | hc
    · exact ht.fresh c hc
    · obtain ⟨hslot, rfl, hitem⟩ := mem_released.mp hc
      obtain ⟨item, hitem, -⟩ := Option.bind_eq_some_iff.mp hitem
      obtain ⟨q, hq, -⟩ := Option.map_eq_some_iff.mp hitem
      refine ⟨q, e, hq, he, by rw [hcmd, hv], Nat.le_of_not_lt fun hlt => ?_⟩
      -- the answer would be behind the reader
      have := ht.slot _ hslot q hq _ e hlt he (by rw [hcmd, hv])
      simp only [Session.position, hr] at this
      exact Nat.lt_irrefl _ this
  | pass hr =>
    refine ht.advance hs rfl (hnone fun r payload answer h => by cases h) (List.prefix_refl _) ?_ rfl rfl
      (List.Subset.refl _)
    simp only [Session.position, hr, (ht.reader _ _ _ hr).1]
    exact Nat.le_succ _
  | drop hr =>
    refine ht.advance hs rfl (hnone fun r payload answer h => by cases h) (List.prefix_refl _) ?_ rfl rfl
      (List.Subset.refl _)
    simp only [Session.position, hr, Nat.le_refl]
  | send hr =>
    refine ht.advance hs rfl (hnone fun r payload answer h => by cases h) (List.prefix_refl _) ?_ rfl rfl
      (List.Subset.refl _)
    simp only [Session.position, hr, Nat.le_refl]
  | complete hr =>
    refine ht.advance hs rfl (hnone fun r payload answer h => by cases h) (List.prefix_refl _) ?_ rfl rfl
      (List.Subset.refl _)
    simp only [Session.position, hr, Nat.le_refl]
  | finish =>
    exact ht.advance hs rfl ht.reader (List.prefix_refl _) (Nat.le_refl _) rfl rfl (List.nil_subset _)

section

variable [TokenStore σ] (env) (P : Parsers)

theorem settled_step {t t' : Tracked σ} {l : Session.Label} (hc : OneAtATime t l) (ht : Settled env t)
    (h : step env P t l = some t') : Settled env t' := by
  obtain ⟨s', hs, rfl⟩ := Option.map_eq_some_iff.mp h
  exact settled_moves ht hc (Session.inv_step env P ht.session hs) (step_moves env P h)

/-- Every command the reader sends for a secured control is that of its control,
hashed with an answer, and a control leads to at most one. If a control is taken
only when no `getvisusalt` is outstanding, and nothing expires, the answer is to
a `getvisusalt` sent no earlier than the control was queued. -/
theorem secured_fresh {salt : SaltState} {pos : Pos} {shared : SharedState σ} {ls : List Session.Label}
    {t : Tracked σ} (h : run (step env P) (init salt pos shared) ls = some t) :
    t.handed.Sublist (t.secured.map SecuredCommand.cmd) ∧
    (t.secured.map SecuredCommand.control).Nodup ∧
    (∀ c ∈ t.secured, t.Computed P c) ∧
    (Along (step env P) OneAtATime (init salt pos shared) ls → ∀ c ∈ t.secured, t.Fresh c) := by
  have hinv : Inv P t := run_inv (fun ht h => inv_moves ht (step_moves env P h)) (inv_init P salt pos shared) h
  refine ⟨(List.sublist_append_left _ _).trans hinv.handed, (List.nodup_append.mp hinv.nodup).1,
    hinv.computed, fun ha => ?_⟩
  exact (run_inv_along (settled_step env P) ha (settled_init env salt pos shared) h).fresh

end

/-- A step of the session is one of the tracked session. -/
theorem step_of_session [TokenStore σ] {P : Parsers} {t : Tracked σ} {l : Session.Label} {s' : Session σ}
    (h : t.session.step env P l = some s') : step env P t l = some { t.follow P l with session := s' } :=
  congrArg (Option.map _) h

/-! ## Controls one after another, and in quick succession -/

def sampleStart : Tracked (Option LxToken) := ⟨Session.sampleStart, [], [], [], []⟩

def light (value : Str) : IoCommand := .visuControl "0f1e".toList value "1234".toList

/-- The session in which a control has been queued and its request is to be
written. -/
def sampleQueued (s : Session (Option LxToken)) (salt : SaltState) (pos : Pos) (text value : Str) :
    Session (Option LxToken) :=
  { s with
    writer := { s.writer with
      salt, pos
      visu := s.writer.visu.push (sampleControl value)
      pending := s.writer.pending.push (cmdGetVisuSalt "admin".toList) text none 30
      pushed := s.writer.pushed ++ [⟨cmdGetVisuSalt "admin".toList, text, none, 30⟩] }
    pc := .writeText text
    commands := [] }

theorem step_sampleQueued (value : Str) {s : Session (Option LxToken)} (hpc : s.pc = .select)
    (hc : s.commands = [light value]) :
    ∃ text salt pos, isEncryptedText text = true ∧
      s.step Session.sampleEnv .keySalt (.takeCommand 0) = some (sampleQueued s salt pos text value) :=
  Session.step_takeVisu Session.sampleEnv .keySalt sampleCrates_lawful.toTotal hpc hc 0

/-- The command of a control, with the hash of the answer to its request. -/
def switch (value : Str) : Str := sampleSecured visuSaltMac value

theorem securedBy_visuSaltAnswer (value : Str) :
    securedBy .keySalt visuSaltAnswer (sampleControl value) = some (switch value) := by
  have hflush := flushVisu_visuSaltAnswer value
  rw [flushVisu_eq] at hflush
  rcases h : securedBy .keySalt visuSaltAnswer (sampleControl value) with _ | cmd
  · rw [List.filterMap_cons_none h] at hflush
    cases hflush
  · rw [List.filterMap_cons_some h] at hflush
    exact congrArg some (List.cons.inj hflush).1

/-- The answer to the request of a control is read: the control that waits is
released. -/
theorem step_released {t : Tracked (Option LxToken)} {r : Resolved} {answer n : Nat} {value : Str}
    (hreader : t.session.reader = .resolved r visuSaltAnswer answer)
    (hcmd : r.plaintextCmd = cmdGetVisuSalt "admin".toList) (hvisu : t.session.writer.visu = [sampleControl value])
    (hslot : t.slot = [n]) (hitem : t.item n = some (sampleControl value)) :
    step Session.sampleEnv .keySalt t .release = some
      { session := { t.session with
          writer := { t.session.writer with visu := [] }
          reader := .flushing [switch value] r.resp visuSaltAnswer answer }
        queued := t.queued
        slot := []
        secured := t.secured ++ [⟨n, answer, switch value⟩]
        handed := t.handed } := by
  have hrel : releasesVisu r t.session.writer.visu = true := by
    rw [releasesVisu, hcmd, hvisu]
    rfl
  have hsession : t.session.step Session.sampleEnv .keySalt .release = some { t.session with
      writer := { t.session.writer with visu := [] }
      reader := .flushing [switch value] r.resp visuSaltAnswer answer } := by
    simp only [Session.step, hreader, hrel, if_true]
    rw [hvisu, flushVisu_visuSaltAnswer]
    rfl
  have hfollow : t.follow .keySalt .release =
      { t with slot := [], secured := t.secured ++ [⟨n, answer, switch value⟩] } := by
    simp only [follow, hreader, hrel, if_true, releaseBy, released, hslot, List.filterMap_cons, List.filterMap_nil,
      hitem, Option.bind_some, securedBy_visuSaltAnswer, Option.map_some]
  rw [step_of_session hsession, hfollow]

/-- Nothing is under way. -/
structure Idle (t : Tracked (Option LxToken)) : Prop where
  pc : t.session.pc = .select
  commands : t.session.commands = []
  entries : t.session.writer.pending.entries = []
  visu : t.session.writer.visu = []
  slot : t.slot = []
  reader : t.session.reader = .idle
  read : t.session.read = t.session.answers.length
  answers : t.session.answers.length = t.session.encrypted.length

/-- A control is queued, its request written and answered, and its command sent to the
writer. -/
def switchRun (value : Str) : List Session.Label :=
  [.enqueue (light value), .takeCommand 0, .written, .expire 0, .serve visuSaltAnswer, .resolve, .release, .flush,
    .complete]

theorem run_switch (value : Str) {t : Tracked (Option LxToken)} (ht : t.Idle) :
    ∃ t', (run (step Session.sampleEnv .keySalt) t (switchRun value) = some t' ∧
        Along (step Session.sampleEnv .keySalt) OneAtATime t (switchRun value)) ∧
      t'.Idle ∧ t'.handed = t.handed ++ [switch value] ∧ t'.queued.length = t.queued.length + 1 ∧
      t'.secured.map SecuredCommand.control = t.secured.map SecuredCommand.control ++ [t.queued.length] := by
  obtain ⟨⟨⟨salt, pos, ⟨entries, mismatches, unsolicited, timeouts⟩, visu, live, delivered, pushed⟩, pc, shared,
    commands, out, waiters, received, answers, read, reader, completed⟩, queued, slot, secured, handed⟩ := t
  obtain ⟨hpc, hcommands, hentries, hvisu, hslot, hreader, hread, hanswers⟩ := ht
  dsimp only at hpc hcommands hentries hvisu hslot hreader hread hanswers
  subst hpc hcommands hentries hvisu hslot hreader hread
  obtain ⟨text, salt', pos', htext, htake⟩ := step_sampleQueued value (s :=
    ⟨⟨salt, pos, ⟨[], mismatches, unsolicited, timeouts⟩, [], live, delivered, pushed⟩, .select, shared, [light value],
      out, waiters, received, answers, answers.length, .idle, completed⟩) rfl rfl
  let entry : PendingEntry := ⟨cmdGetVisuSalt "admin".toList, text, none, 30⟩
  have hentry : ∀ e ∈ [entry], 0 < e.deadline := List.forall_mem_singleton.mpr (Nat.zero_lt_succ _)
  let written : Session (Option LxToken) :=
    ⟨⟨salt', pos', ⟨[entry], mismatches, unsolicited, timeouts⟩, [sampleControl value], live, delivered,
      pushed ++ [entry]⟩, .select, shared, [], out, waiters, received ++ [text], answers, answers.length, .idle,
      completed⟩
  have hexpire : Session.step Session.sampleEnv .keySalt { written with pc := .expirePending } (.expire 0) =
      some written := Session.step_expire_none _ _ rfl hentry
  have hencrypted : written.encrypted.length = answers.length + 1 := by
    rw [hanswers, Session.encrypted, Session.encrypted, List.filter_append, List.filter_singleton, htext]
    exact List.length_append
  have hserve : written.step Session.sampleEnv .keySalt (.serve visuSaltAnswer) =
      some { written with answers := answers ++ [visuSaltAnswer] } :=
    Session.step_serve _ _ (hencrypted ▸ Nat.lt_succ_self _) _
  obtain ⟨r, n, hres, hcmd, -⟩ := resolveText_cons sampleKeys (q := ⟨[entry], mismatches, unsolicited, timeouts⟩)
    rfl visuSaltAnswer
  let resolved : Session (Option LxToken) := { written with
    writer := { written.writer with pending := ⟨[], n, unsolicited, timeouts⟩ }
    answers := answers ++ [visuSaltAnswer]
    read := answers.length + 1
    reader := .resolved r visuSaltAnswer answers.length }
  have hresolve : Session.step Session.sampleEnv .keySalt { written with answers := answers ++ [visuSaltAnswer] }
      .resolve = some resolved :=
    Session.step_resolve _ _ rfl List.getElem?_concat_length hres
  let queued' := queued ++ [⟨sampleControl value, pushed.length⟩]
  have hrelease := step_released (t := ⟨resolved, queued', [queued.length], secured, handed⟩) (n := queued.length)
    rfl hcmd rfl rfl (by simp [item, queued'])
  refine ⟨⟨{ resolved with
      writer := { resolved.writer with visu := [] }
      out := out ++ [.command (switch value) none]
      reader := .idle
      completed := completed ++ r.resp.toList.map (⟨·, answers.length, visuSaltAnswer⟩) },
    queued', [], secured ++ [⟨queued.length, answers.length, switch value⟩], handed ++ [switch value]⟩, ?_, ?_⟩
  · refine run_along_cons trivial (step_of_session rfl) ?_
    refine run_along_cons ?_ (step_of_session htake) ?_
    · intro uuid value visuPw commands _
      exact ⟨fun e he => (by cases he), fun r payload answer h => (by cases h)⟩
    refine run_along_cons trivial (step_of_session rfl) ?_
    refine run_along_cons hentry (step_of_session hexpire) ?_
    refine run_along_cons trivial (step_of_session hserve) ?_
    refine run_along_cons trivial (step_of_session hresolve) ?_
    refine run_along_cons trivial hrelease ?_
    refine run_along_cons trivial (step_of_session rfl) ?_
    exact run_along_cons trivial (step_of_session rfl) ⟨rfl, trivial⟩
  · have hlength : (answers ++ [visuSaltAnswer]).length = answers.length + 1 := List.length_append
    refine ⟨⟨rfl, rfl, rfl, rfl, rfl, rfl, hlength.symm, hlength.trans hencrypted.symm⟩, rfl, List.length_append, ?_⟩
    exact List.map_append

theorem idle_sampleStart : sampleStart.Idle := ⟨rfl, rfl, rfl, rfl, rfl, rfl, rfl, rfl⟩

/-- The light is switched on, and off when that is done. -/
theorem secured_fresh_two :
    ∃ t, run (step Session.sampleEnv .keySalt) sampleStart (switchRun "on".toList ++ switchRun "off".toList) = some t ∧
      t.handed = [switch "on".toList, switch "off".toList] ∧ t.secured.map SecuredCommand.control = [0, 1] ∧
      ∀ c ∈ t.secured, t.Fresh c := by
  obtain ⟨t₁, hrun₁, hidle, hhanded₁, hqueued, hsecured₁⟩ := run_switch "on".toList idle_sampleStart
  obtain ⟨t₂, hrun₂, -, hhanded₂, -, hsecured₂⟩ := run_switch "off".toList hidle
  obtain ⟨hrun, halong⟩ := run_along_append hrun₁ hrun₂
  refine ⟨t₂, hrun, ?_, ?_, (secured_fresh Session.sampleEnv .keySalt hrun).2.2.2 halong⟩
  · rw [hhanded₂, hhanded₁]
    rfl
  · rw [hsecured₂, hsecured₁, hqueued]
    rfl

/-- The light is switched on and off before the first answer comes. -/
def twoControls : List Session.Label :=
  [.enqueue (light "on".toList), .takeCommand 0, .written, .expire 0, .enqueue (light "off".toList),
    .takeCommand 0, .written, .expire 0, .serve visuSaltAnswer, .resolve, .release]

/-- The answer to the first request releases the second control. -/
theorem stale_salt_released :
    ∃ t, run (step Session.sampleEnv .keySalt) sampleStart twoControls = some t ∧
      t.queued.map QueuedControl.since = [0, 1] ∧ t.secured = [⟨1, 0, switch "off".toList⟩] ∧
      ¬ ∀ c ∈ t.secured, t.Fresh c := by
  obtain ⟨text, salt, pos, htext, htake⟩ := step_sampleQueued "on".toList
    (s := { Session.sampleStart with commands := [light "on".toList] }) rfl rfl
  let first : Session (Option LxToken) :=
    { sampleQueued { Session.sampleStart with commands := [light "on".toList] } salt pos text "on".toList with
      pc := .select, received := [text], commands := [light "off".toList] }
  obtain ⟨text', salt', pos', htext', htake'⟩ := step_sampleQueued "off".toList (s := first) rfl rfl
  let entry' : PendingEntry := ⟨cmdGetVisuSalt "admin".toList, text', none, 30⟩
  let second : Session (Option LxToken) :=
    { sampleQueued first salt' pos' text' "off".toList with pc := .select, received := [text, text'] }
  have hencrypted : second.encrypted = [text, text'] := by
    simp only [Session.encrypted, second, List.filter_cons, htext, htext', if_true, List.filter_nil]
  have hserve : second.step Session.sampleEnv .keySalt (.serve visuSaltAnswer) =
      some { second with answers := [visuSaltAnswer] } :=
    Session.step_serve _ _ (hencrypted ▸ Nat.zero_lt_succ _) _
  obtain ⟨r, n, hres, hcmd, -⟩ := resolveText_cons sampleKeys
    (q := ⟨[⟨cmdGetVisuSalt "admin".toList, text, none, 30⟩, entry'], 0, 0, 0⟩) rfl visuSaltAnswer
  let resolved : Session (Option LxToken) := { second with
    writer := { second.writer with pending := ⟨[entry'], n, 0, 0⟩ }
    answers := [visuSaltAnswer]
    read := 1
    reader := .resolved r visuSaltAnswer 0 }
  have hresolve : Session.step Session.sampleEnv .keySalt { second with answers := [visuSaltAnswer] } .resolve =
      some resolved := Session.step_resolve _ _ rfl rfl hres
  let queued : List QueuedControl := [⟨sampleControl "on".toList, 0⟩, ⟨sampleControl "off".toList, 1⟩]
  have hrelease := step_released (t := ⟨resolved, queued, [1], [], []⟩) (n := 1) rfl hcmd rfl rfl rfl
  refine ⟨⟨{ resolved with
      writer := { resolved.writer with visu := [] }
      reader := .flushing [switch "off".toList] r.resp visuSaltAnswer 0 },
    queued, [], [⟨1, 0, switch "off".toList⟩], []⟩, ?_, rfl, rfl, fun h => ?_⟩
  · refine run_cons.mpr ⟨_, step_of_session rfl, run_cons.mpr ⟨_, step_of_session htake, ?_⟩⟩
    refine run_cons.mpr ⟨_, step_of_session rfl, run_cons.mpr ⟨_, step_of_session rfl, ?_⟩⟩
    refine run_cons.mpr ⟨_, step_of_session (rfl : _ = some first), run_cons.mpr ⟨_, step_of_session htake', ?_⟩⟩
    refine run_cons.mpr ⟨_, step_of_session rfl, run_cons.mpr ⟨_, step_of_session (rfl : _ = some second), ?_⟩⟩
    refine run_cons.mpr ⟨_, step_of_session hserve, run_cons.mpr ⟨_, step_of_session hresolve, ?_⟩⟩
    exact run_cons.mpr ⟨_, hrelease, rfl⟩
  · obtain ⟨q, e, hq, -, -, hle⟩ := h _ (List.mem_singleton_self _)
    cases hq
    exact Nat.not_succ_le_zero _ hle

end Tracked

end Lox
