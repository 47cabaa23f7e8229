import Mathlib.Data.List.Flatten
import LoxWebsocket.Client.Transport
import LoxWebsocket.Client.Lifetime
import LoxWebsocket.Client.Secured

/-!
# The controls of a client

`send_control` is answered as soon as the command channel has the control; what
becomes of it then is up to the sessions. Over any number of them each control
is taken at most once, in the order in which they entered the channel, and what
the Miniservers read of them keeps that order and repeats nothing
(`controls_in_order`). A control that was taken is missing only if its session
has stopped writing.

`Journal` follows the sessions of a client, with the salt state each started
from and the commands that have entered the channel. Only a control makes an
entry that looks like one (`step_controls`), which is what tells them apart from
the commands of the reader and of the graceful close.
-/

namespace Lox

variable {C : Crates}

/-! ## Controls -/

/-- How a control starts. -/
def ioTag : Str := "jdev/sps/io/".toList

/-- The control of an entry: nobody waits for its answer. -/
def PendingEntry.control (e : PendingEntry) : Option Str :=
  if e.resp = none ∧ ioTag.isPrefixOf e.plaintextCmd = true then some e.plaintextCmd else none

def IoCommand.controlText : IoCommand → Option Str
  | .control uuid value => some ("jdev/sps/io/".toList ++ uuid ++ "/".toList ++ value)
  | _ => none

theorem PendingEntry.control_awaited {cmd text : Str} {w : Waiter} {deadline : Instant} :
    PendingEntry.control ⟨cmd, text, some w, deadline⟩ = none := rfl

theorem PendingEntry.control_other {cmd text : Str} {resp : Option Waiter} {deadline : Instant}
    (h : ioTag.isPrefixOf cmd = false) : PendingEntry.control ⟨cmd, text, resp, deadline⟩ = none := by
  simp only [control, h, Bool.false_eq_true, and_false, if_false]

theorem PendingEntry.control_io {cmd text : Str} {deadline : Instant} (h : ioTag <+: cmd) :
    PendingEntry.control ⟨cmd, text, none, deadline⟩ = some cmd := by
  simp only [control, List.isPrefixOf_iff_prefix.mpr h, and_self, if_true]

theorem not_io_securedBy {P : Parsers} {payload : Bytes} {item : VisuPending} {cmd : Str}
    (h : securedBy P payload item = some cmd) : ioTag.isPrefixOf cmd = false := by
  unfold securedBy securedCmd at h
  split at h
  · split at h
    · cases h
      rfl
    · cases h
  · cases h

namespace Session

variable {σ : Type} {env : WriterEnv C} {P : Parsers} {s s' : Session σ}

/-- The controls among the entries pushed. -/
def controls (s : Session σ) : List Str := s.writer.pushed.filterMap PendingEntry.control

/-- The entries whose texts have arrived. -/
def arrived (s : Session σ) : List PendingEntry := s.writer.pushed.take s.encrypted.length

/-- What the reader has the writer send is no control. -/
structure Discreet (s : Session σ) : Prop where
  out : ∀ cmd resp, .command cmd resp ∈ s.out → ioTag.isPrefixOf cmd = false
  reader : ∀ cmd ∈ s.reader.cmds, ioTag.isPrefixOf cmd = false

/-- The channel from the reader gets messages that are no controls. -/
theorem Discreet.push (h : Discreet s) (commands : List IoCommand) (waiters : List Str) (reader : ReaderPc)
    (msgs : List WriterMsg) (hr : ∀ cmd ∈ reader.cmds, ioTag.isPrefixOf cmd = false)
    (hm : ∀ cmd resp, .command cmd resp ∈ msgs → ioTag.isPrefixOf cmd = false) :
    Discreet { s with commands, waiters, reader, out := s.out ++ msgs } := by
  refine ⟨fun cmd resp hmem => ?_, hr⟩
  rcases List.mem_append.mp hmem with hmem | hmem
  · exact h.out cmd resp hmem
  · exact hm cmd resp hmem

/-- What pushing an entry adds to the controls. -/
theorem controls_prepareCommand (env : WriterEnv C) (hC : C.Total) (now : Instant) (cmd : Str) (resp : Option Waiter)
    (w : WriterState) :
    ∃ text, (Writer.prepareCommand env now cmd resp w).2.pushed.filterMap PendingEntry.control =
      w.pushed.filterMap PendingEntry.control ++
        (PendingEntry.control ⟨cmd, text, resp, now + env.cfg.commandTimeout⟩).toList := by
  obtain ⟨text, salt, pos, -, hprep⟩ := Writer.prepareCommand_total env now hC cmd resp w
  refine ⟨text, ?_⟩
  rw [hprep, List.filterMap_append]
  rfl

variable [TokenStore σ]

theorem request_controls (hC : C.Total) (now : Instant) (kill : KillStep) (cmd : Str) (hd : Discreet s) :
    (request env now kill cmd s).controls = s.controls ∧ Discreet (request env now kill cmd s) := by
  obtain ⟨text, hpushed⟩ := controls_prepareCommand env hC now cmd (some s.waiters.length) s.writer
  rw [PendingEntry.control_awaited, Option.toList_none, List.append_nil] at hpushed
  simp only [request]
  split
  · rename_i hprep
    rw [hprep] at hpushed
    exact ⟨hpushed, hd.out, hd.reader⟩
  · rename_i hprep
    rw [hprep] at hpushed
    exact ⟨hpushed, hd.out, hd.reader⟩

/-- Without the command channel no control is pushed. -/
theorem step_controls (hC : C.Total) {l : Label} (hl : l.inner = true) (hd : Discreet s)
    (h : step env P s l = some s') : s'.controls = s.controls ∧ Discreet s' := by
  cases l with
  | sendCommand cmd => cases hl
  | enqueue c => cases hl
  | takeCommand now => cases hl
  | shutdown => cases hl
  | obligated opcode payload =>
    cases h
    exact ⟨rfl, hd.push s.commands s.waiters s.reader _ hd.reader fun cmd resp hm => by simp at hm⟩
  | takeOut now =>
    obtain ⟨msg, out, -, hout, rfl⟩ := step_takeOut_inv env P h
    have hrest : Discreet { s with out } :=
      ⟨fun cmd resp hm => hd.out cmd resp (hout ▸ List.mem_cons_of_mem _ hm), hd.reader⟩
    refine ⟨?_, hrest.out, hrest.reader⟩
    cases msg with
    | obligated opcode payload => rfl
    | shutdown => rfl
    | command cmd resp =>
      obtain ⟨text, hpushed⟩ := controls_prepareCommand env hC now cmd resp s.writer
      rw [PendingEntry.control_other (hd.out cmd resp (hout ▸ List.mem_cons_self)), Option.toList_none,
        List.append_nil] at hpushed
      exact hpushed
  | keepaliveTick now =>
    obtain ⟨-, rfl⟩ := step_keepaliveTick_inv env P h
    have hpushed := (Writer.onKeepaliveTick_decision env now s.writer).pushed
    rw [Option.toList_none, List.append_nil] at hpushed
    refine ⟨?_, hd.out, hd.reader⟩
    rw [controls, controls, decided, hpushed]
  | gracefulClose now =>
    obtain ⟨-, rfl | rfl | rfl⟩ := step_gracefulClose_inv env P h
    · exact ⟨rfl, hd.out, hd.reader⟩
    · exact ⟨rfl, hd.out, hd.reader⟩
    · exact request_controls hC now _ _ hd
  | answered now =>
    obtain ⟨kill, waiter, -, rfl | ⟨token, hash, -, rfl⟩⟩ := step_answered_inv env P h
    · exact ⟨rfl, hd.out, hd.reader⟩
    · exact request_controls hC now _ _ hd
  | resolve =>
    obtain ⟨-, payload, -, ⟨pending, -, -, rfl⟩ | ⟨e, rest, r, pending, -, -, -, -, rfl⟩⟩ :=
      step_resolve_inv env P h
    · exact ⟨rfl, hd.out, hd.reader⟩
    · exact ⟨rfl, hd.out, fun cmd hm => by cases hm⟩
  | release =>
    obtain ⟨r, payload, answer, -, ⟨-, rfl⟩ | ⟨-, rfl⟩⟩ := step_release_inv env P h
    · refine ⟨rfl, hd.out, fun cmd hm => ?_⟩
      obtain ⟨item, -, hsecured⟩ := List.mem_filterMap.mp (flushVisu_eq P s.writer.visu payload ▸ hm)
      exact not_io_securedBy hsecured
    · exact ⟨rfl, hd.out, fun cmd hm => by cases hm⟩
  | flush =>
    obtain ⟨cmd, cmds, resp, payload, answer, hr, ⟨-, rfl⟩ | ⟨-, rfl⟩⟩ := step_flush_inv env P h
    · exact ⟨rfl, hd.out, fun cmd hm => by cases hm⟩
    · have hcmds : ∀ x ∈ cmd :: cmds, ioTag.isPrefixOf x = false := by
        intro x hx
        exact hd.reader x (by rw [hr]; exact hx)
      refine ⟨rfl, hd.push s.commands s.waiters (.flushing cmds resp payload answer) _
        (fun x hx => hcmds x (List.mem_cons_of_mem _ hx)) fun x w hm => ?_⟩
      cases List.mem_singleton.mp hm
      exact hcmds _ List.mem_cons_self
  | complete =>
    obtain ⟨resp, payload, answer, completed, -, rfl⟩ := step_complete_inv env P h
    exact ⟨rfl, hd.out, fun cmd hm => by cases hm⟩
  -- the other steps push nothing and send the writer nothing
  | _ =>
    simp only [step] at h
    repeat' split at h
    all_goals
      first
      | cases h; exact ⟨rfl, hd.out, hd.reader⟩
      | cases h

/-- The writer pushes a control when it takes one. -/
theorem takeCommand_controls (hC : C.Total) {now : Instant} {c : IoCommand} {commands : List IoCommand}
    (hc : s.commands = c :: commands) (hd : Discreet s) (h : step env P s (.takeCommand now) = some s') :
    s'.controls = s.controls ++ c.controlText.toList ∧ Discreet s' := by
  obtain ⟨c', commands', -, hc', rfl⟩ := step_takeCommand_inv env P h
  rw [hc] at hc'
  cases hc'
  refine ⟨?_, hd.out, hd.reader⟩
  cases c with
  | encrypted cmd resp =>
    obtain ⟨text, hpushed⟩ := controls_prepareCommand env hC now cmd (some resp) s.writer
    rw [controls, decided, Writer.onIoCommand]
    split
    · exact (List.append_nil _).symm
    · exact hpushed
  | control uuid value =>
    obtain ⟨text, hpushed⟩ := controls_prepareCommand env hC now
      ("jdev/sps/io/".toList ++ uuid ++ "/".toList ++ value) none s.writer
    have htag : ioTag <+: "jdev/sps/io/".toList ++ uuid ++ "/".toList ++ value :=
      ((List.prefix_append ioTag uuid).trans (List.prefix_append _ "/".toList)).trans (List.prefix_append _ value)
    rw [PendingEntry.control_io htag] at hpushed
    exact hpushed
  | visuControl uuid value visuPw =>
    obtain ⟨text, hpushed⟩ := controls_prepareCommand env hC now (cmdGetVisuSalt env.cfg.username) none
      { s.writer with visu := s.writer.visu.push ⟨uuid, value, visuPw⟩ }
    have hother : ioTag.isPrefixOf (cmdGetVisuSalt env.cfg.username) = false := rfl
    rw [PendingEntry.control_other hother] at hpushed
    exact hpushed
  | dropSession => exact (List.append_nil _).symm
  | stop => exact (List.append_nil _).symm

end Session

/-! ## The sessions of a client -/

/-- A session, with the keys and the salt state it started from. -/
structure Connection (C : Crates) (σ : Type) where
  keys : SessionKeys C
  salt : SaltState
  pos : Pos
  session : Session σ

/-- A client, with the sessions before the present one, as they ended, and the
commands that have entered the channel. -/
structure Journal (C : Crates) (σ : Type) where
  life : Lifetime C σ
  salt : SaltState
  pos : Pos
  past : List (Connection C σ)
  accepted : List IoCommand

namespace Journal

variable {σ : Type}

def start (keys : SessionKeys C) (shared : SharedState σ) : Journal C σ :=
  ⟨.start keys shared, SaltState.new, Pos.start, [], []⟩

/-- The present session. -/
def present (j : Journal C σ) : Connection C σ := ⟨j.life.keys, j.salt, j.pos, j.life.session⟩

def connections (j : Journal C σ) : List (Connection C σ) := j.past ++ [j.present]

/-- What a step of the client means for its journal. -/
def follow (j : Journal C σ) (life : Lifetime C σ) : Lifetime.Label C σ → Journal C σ
  | .take _ => { j with life }
  | .connect _ salt pos _ => { j with life, salt, pos, past := j.past ++ [j.present] }
  | _ => { j with life, accepted := j.accepted ++ life.session.commands.drop j.life.session.commands.length }

def step [TokenStore σ] (world : World) (cfg : WriterConfig) (P : Parsers) (depth : Nat) (j : Journal C σ)
    (l : Lifetime.Label C σ) : Option (Journal C σ) :=
  (Lifetime.step world cfg P depth j.life l).map (j.follow · l)

end Journal

namespace Lifetime

variable {σ : Type}

/-- The steps that are not of the writer and start no session. -/
def Label.outer : Label C σ → Bool
  | .take _ | .connect _ _ _ _ | .session _ => false
  | _ => true

/-- They put commands into the channel and tell the writer to stop, at most. -/
structure Outer (s s' : Lifetime C σ) : Prop where
  keys : s'.keys = s.keys
  served : s'.served = s.served
  session : ∃ entered waiters msgs, (∀ m ∈ msgs, m = WriterMsg.shutdown) ∧ s'.session = { s.session with
    commands := s.session.commands ++ entered, waiters, out := s.session.out ++ msgs }

theorem Outer.same {s s' : Lifetime C σ} (hk : s'.keys = s.keys) (hs : s'.served = s.served)
    (h : s'.session = s.session) : Outer s s' :=
  ⟨hk, hs, [], s.session.waiters, [], by simp, by simp only [h, List.append_nil]⟩

theorem Outer.enqueue {s s₁ s' : Lifetime C σ} {depth : Nat} {c : IoCommand} {o : Option Nat}
    (h : enqueue depth c o s₁ = some s') (waiters : List Str) (hk : s₁.keys = s.keys) (hs : s₁.served = s.served)
    (hsession : s₁.session = { s.session with waiters }) : Outer s s' := by
  unfold Lifetime.enqueue at h
  split at h
  · cases h
    exact ⟨hk, hs, [c], waiters, [], by simp, by simp only [hsession, List.append_nil]⟩
  · cases h

variable [TokenStore σ] {world : World} {cfg : WriterConfig} {P : Parsers} {depth : Nat}

theorem step_outer {s s' : Lifetime C σ} {l : Label C σ} (hl : l.outer = true)
    (h : step world cfg P depth s l = some s') : Outer s s' := by
  cases l with
  | take now => cases hl
  | connect keys salt pos shared => cases hl
  | session l => cases hl
  | shutdown =>
    simp only [step] at h
    split at h
    · cases h
      exact ⟨rfl, rfl, [], s.session.waiters, [.shutdown], by simp, by simp only [List.append_nil]⟩
    · cases h
  | send i =>
    obtain ⟨⟨k, c⟩, -, he⟩ := Option.bind_eq_some_iff.mp h
    exact .enqueue he s.session.waiters rfl rfl rfl
  | sendCommand cmd =>
    simp only [step] at h
    exact .enqueue h (s.session.waiters ++ [cmd]) rfl rfl rfl
  | sendStop =>
    simp only [step] at h
    split at h
    · exact .enqueue h s.session.waiters rfl rfl rfl
    · cases h
  | drop i =>
    obtain ⟨r, -, he⟩ := Option.bind_eq_some_iff.mp h
    split at he
    · exact .enqueue he s.session.waiters rfl rfl rfl
    · cases he
  | refreshed i result =>
    obtain ⟨r, -, he⟩ := Option.bind_eq_some_iff.mp h
    split at he
    · cases he
      exact .same rfl rfl rfl
    · cases he
  | cancelled i =>
    obtain ⟨r, -, he⟩ := Option.bind_eq_some_iff.mp h
    split at he
    · cases he
      exact .same rfl rfl rfl
    · cases he
  | _ =>
    simp only [step] at h
    repeat' split at h
    all_goals cases h
    all_goals exact .same rfl rfl rfl

/-- The writer takes the command at the front of the channel. -/
theorem step_take_inv {s s' : Lifetime C σ} {now : Instant} (h : step world cfg P depth s (.take now) = some s') :
    ∃ c commands session, s.session.commands = c :: commands ∧
      Session.step ⟨world, s.keys, cfg⟩ P s.session (.takeCommand now) = some session ∧
      s'.session = session ∧ s'.keys = s.keys ∧ s'.served.map Served.command = s.served.map Served.command ++ [c] := by
  simp only [step] at h
  split at h
  · rename_i c commands o origins hc ho
    split at h
    · obtain ⟨session, hstep, hs⟩ := Option.bind_eq_some_iff.mp h
      cases hs
      exact ⟨c, commands, session, hc, hstep, rfl, rfl, List.map_append⟩
    · cases h
  · cases h

end Lifetime

namespace Journal

variable {σ : Type}

/-- A Miniserver that is in step when the session starts reads it. -/
def Reads (world : World) (cfg : WriterConfig) (conn : Connection C σ) : Prop :=
  ∀ decrypt (m₀ : Miniserver), m₀.Follows world conn.keys conn.salt conn.pos →
    Session.Carried decrypt ⟨world, conn.keys, cfg⟩ m₀ conn.session

structure Inv (world : World) (cfg : WriterConfig) (j : Journal C σ) : Prop where
  accepted : j.accepted = j.life.served.map Served.command ++ j.life.session.commands
  controls : j.connections.flatMap (·.session.controls) =
    (j.life.served.map Served.command).filterMap IoCommand.controlText
  discreet : j.life.session.Discreet
  past : ∀ conn ∈ j.past, Reads world cfg conn
  present : Reads world cfg j.present

variable {world : World} {cfg : WriterConfig}

theorem inv_start (keys : SessionKeys C) (shared : SharedState σ) : (start keys shared).Inv world cfg where
  accepted := rfl
  controls := rfl
  discreet := by
    refine ⟨fun _ _ h => ?_, fun _ h => ?_⟩
    · cases h
    · cases h
  past _ h := by cases h
  present decrypt m₀ _ := by
    refine ⟨m₀, rfl, ?_, fun hn => absurd rfl hn⟩
    exact List.prefix_append _ _

/-- A step that keeps the number of sessions. -/
theorem Inv.same_past {j j' : Journal C σ} (h : j.Inv world cfg) (hpast : j'.past = j.past) (taken : List IoCommand)
    (hserved : j'.life.served.map Served.command = j.life.served.map Served.command ++ taken)
    (haccepted : j'.accepted = j'.life.served.map Served.command ++ j'.life.session.commands)
    (hcontrols : j'.life.session.controls = j.life.session.controls ++ taken.filterMap IoCommand.controlText)
    (hdiscreet : j'.life.session.Discreet) (hpresent : Reads world cfg j'.present) : j'.Inv world cfg := by
  refine ⟨haccepted, ?_, hdiscreet, hpast ▸ h.past, hpresent⟩
  have hall := h.controls
  rw [connections, List.flatMap_append, List.flatMap_singleton] at hall ⊢
  rw [hpast, Journal.present, hcontrols, hserved, List.filterMap_append, ← hall, List.append_assoc]
  rfl

variable [TokenStore σ] {P : Parsers} {depth : Nat}

theorem Inv.step (hC : C.Lawful) {j j' : Journal C σ} {l : Lifetime.Label C σ} (h : j.Inv world cfg)
    (hs : step world cfg P depth j l = some j') : j'.Inv world cfg := by
  obtain ⟨life, hlife, rfl⟩ := Option.map_eq_some_iff.mp hs
  by_cases hl : l.outer = true
  · obtain ⟨hkeys, hserved, entered, waiters, msgs, hmsgs, hsession⟩ := Lifetime.step_outer hl hlife
    have hfollow : j.follow life l = { j with life, accepted := j.accepted ++ entered } := by
      have hdrop : life.session.commands.drop j.life.session.commands.length = entered := by
        rw [hsession]
        exact List.drop_left
      cases l with
      | take now => cases hl
      | connect keys salt pos shared => cases hl
      | _ => simp only [follow, hdrop]
    rw [hfollow]
    refine h.same_past rfl [] ?_ ?_ ?_ ?_ fun decrypt m₀ hm => ?_
    · rw [hserved, List.append_nil]
    · simp only [hserved, hsession, h.accepted, List.append_assoc]
    · rw [hsession]
      exact (List.append_nil _).symm
    · rw [hsession]
      refine h.discreet.push _ _ j.life.session.reader _ h.discreet.reader fun cmd resp hm => ?_
      cases hmsgs _ hm
    · simp only [Journal.present, hkeys, hsession] at hm ⊢
      exact (h.present decrypt m₀ hm).congr rfl id rfl rfl rfl
  · cases l with
    | take now =>
      obtain ⟨c, commands, session, hc, hstep, hsession, hkeys, hserved⟩ := Lifetime.step_take_inv hlife
      obtain ⟨hcontrols, hdiscreet⟩ := Session.takeCommand_controls hC.toTotal hc h.discreet hstep
      refine h.same_past rfl [c] hserved ?_ ?_ ?_ fun decrypt m₀ hm => ?_
      · simp only [follow, hserved, hsession, Session.takeCommand_commands hstep, hc, h.accepted, List.append_assoc]
        rfl
      · simp only [follow, hsession, hcontrols]
        cases htext : c.controlText <;> simp [htext]
      · simp only [follow, hsession]
        exact hdiscreet
      · simp only [follow, Journal.present, hkeys, hsession] at hm ⊢
        exact (h.present decrypt m₀ hm).step P hC hstep
    | connect keys salt pos shared =>
      simp only [Lifetime.step] at hlife
      split at hlife
      · cases hlife
        have hdiscreet : (j.life.connected keys salt pos shared).session.Discreet := by
          refine ⟨fun _ _ hm => ?_, fun _ hm => ?_⟩
          · cases hm
          · cases hm
        refine ⟨h.accepted, ?_, hdiscreet, fun conn hm => ?_, fun decrypt m₀ hm => ?_⟩
        · have hnone : (j.life.connected keys salt pos shared).session.controls = [] := rfl
          rw [connections, List.flatMap_append, List.flatMap_singleton]
          simp only [follow, Journal.present, hnone, List.append_nil]
          exact h.controls
        · rcases List.mem_append.mp hm with hm | hm
          · exact h.past conn hm
          · cases List.mem_singleton.mp hm
            exact h.present
        · exact (Session.carried_init hm shared).congr rfl id rfl rfl rfl
      · cases hlife
    | session l =>
      simp only [Lifetime.step] at hlife
      split at hlife
      · rename_i hinner
        obtain ⟨session, hstep, hs⟩ := Option.bind_eq_some_iff.mp hlife
        cases hs
        obtain ⟨hcontrols, hdiscreet⟩ := Session.step_controls hC.toTotal hinner.1 h.discreet hstep
        have hcommands := Session.step_commands hinner.1 hstep
        refine h.same_past rfl [] (List.append_nil _).symm ?_ ?_ hdiscreet fun decrypt m₀ hm => ?_
        · simp only [follow, hcommands, List.drop_length, List.append_nil]
          exact h.accepted
        · exact hcontrols.trans (List.append_nil _).symm
        · exact (h.present decrypt m₀ hm).step P hC hstep
      · cases hlife
    | _ => exact absurd rfl hl

end Journal

/-- Over all sessions of a client: the controls that have arrived, in the order
of their arrival, are some of those that entered the channel, in the order in
which they entered it, each at most once. A Miniserver that is in step when a
session starts reads what has arrived of it and nothing else, and that is all
that was pushed whenever the writer waits for its next input. -/
theorem controls_in_order (hC : C.Lawful) {σ : Type} [TokenStore σ] {world : World} {cfg : WriterConfig} {P : Parsers}
    {depth : Nat} {keys : SessionKeys C} {shared : SharedState σ} {ls : List (Lifetime.Label C σ)} {j : Journal C σ}
    (h : run (Journal.step world cfg P depth) (Journal.start keys shared) ls = some j) :
    (j.connections.flatMap fun conn => conn.session.arrived.filterMap PendingEntry.control).Sublist
        (j.accepted.filterMap IoCommand.controlText) ∧
      ∀ conn ∈ j.connections, ∀ decrypt (m₀ : Miniserver), m₀.Follows world conn.keys conn.salt conn.pos →
        (∃ m, run (Miniserver.step C decrypt) m₀ conn.session.received = some m ∧
          m.commands = m₀.commands ++ conn.session.arrived.map (trimNul ·.plaintextCmd)) ∧
        (conn.session.pc.outgoing = some [] → conn.session.arrived = conn.session.writer.pushed) := by
  have hj : j.Inv world cfg := run_inv (Journal.Inv.step hC) (Journal.inv_start keys shared) h
  refine ⟨?_, fun conn hm decrypt m₀ hm₀ => ?_⟩
  · have harrived : (j.connections.flatMap fun conn => conn.session.arrived.filterMap PendingEntry.control).Sublist
        (j.connections.flatMap (·.session.controls)) :=
      List.Sublist.flatMap_right _ fun conn _ => (List.take_sublist _ _).filterMap _
    refine harrived.trans ?_
    rw [hj.controls, hj.accepted, List.filterMap_append]
    exact List.sublist_append_left _ _
  · have hreads : Session.Carried decrypt ⟨world, conn.keys, cfg⟩ m₀ conn.session := by
      rcases List.mem_append.mp hm with hm | hm
      · exact hj.past conn hm decrypt m₀ hm₀
      · cases List.mem_singleton.mp hm
        exact hj.present decrypt m₀ hm₀
    refine ⟨?_, fun hpc => ?_⟩
    · obtain ⟨m, hrun, hcommands⟩ := hreads.arrived
      exact ⟨m, hrun, by rw [hcommands, Session.pushedCommands, Session.arrived, List.map_take]⟩
    · rw [Session.arrived, hreads.complete hpc, List.take_length]

def lightText : Str := "jdev/sps/io/0f1e2d3c-01a4-2b11-ffff403fb0c34b9e/On".toList

/-- A control is sent in the first session. -/
def lightSent : List (Lifetime.Label sampleCrates (Option LxToken)) :=
  Lifetime.firstSession ++ [.requireLive Lifetime.lightOn, .send 0]

/-- It waits in the channel. -/
def lightWaits : Journal sampleCrates (Option LxToken) where
  life :=
    { Lifetime.takenOver with
      session := { Lifetime.takenOver.session with commands := [Lifetime.lightOn] }, number := 1, origins := [some 1]
      refreshers := [⟨1, .refreshing 0, false⟩] }
  salt := SaltState.new
  pos := Pos.start
  past := [⟨sampleKeys, SaltState.new, Pos.start,
    { Session.init SaltState.new Pos.start TokenRace.sampleMemory with pc := .done }⟩]
  accepted := [Lifetime.lightOn]

theorem lightSent_run :
    run (Journal.step sampleWorld Lifetime.sampleWriter Parsers.rejecting 32)
      (.start sampleKeys TokenRace.sampleMemory) lightSent = some lightWaits := rfl

/-- The control arrives, and the Miniserver reads it. -/
theorem controls_in_order_light :
    ∃ j, run (Journal.step sampleWorld Lifetime.sampleWriter Parsers.rejecting 32)
        (.start sampleKeys TokenRace.sampleMemory) (lightSent ++ [.take 0, .session .written]) = some j ∧
      [lightText].Sublist (j.accepted.filterMap IoCommand.controlText) ∧
      ∃ m, run (Miniserver.step sampleCrates sampleDecrypt) ⟨some (sampleKeys.key, sampleKeys.iv), none, []⟩
          j.present.session.received = some m ∧
        m.commands = [lightText] := by
  obtain ⟨text, salt, pos, htext, hprep⟩ := Writer.prepareCommand_total
    ⟨sampleWorld, sampleKeys, Lifetime.sampleWriter⟩ 0 sampleCrates_lawful.toTotal lightText none
    Lifetime.takenOver.session.writer
  have htake : Journal.step sampleWorld Lifetime.sampleWriter Parsers.rejecting 32 lightWaits (.take 0) =
      some { lightWaits with life := { lightWaits.life with
        session := Session.decided { Lifetime.takenOver.session with commands := [] } (Writer.prepareCommand
          ⟨sampleWorld, sampleKeys, Lifetime.sampleWriter⟩ 0 lightText none
          Lifetime.takenOver.session.writer)
        origins := [], served := [⟨1, Lifetime.lightOn, some 1⟩] } } := rfl
  rw [hprep] at htake
  obtain ⟨j, hrun, hreceived, hpushed, hkeys, hsalt, hpos, hpast⟩ :
      ∃ j, run (Journal.step sampleWorld Lifetime.sampleWriter Parsers.rejecting 32)
          (.start sampleKeys TokenRace.sampleMemory) (lightSent ++ [.take 0, .session .written]) = some j ∧
        j.present.session.received = [text] ∧
        j.present.session.writer.pushed = [⟨lightText, text, none, 0 + Lifetime.sampleWriter.commandTimeout⟩] ∧
        j.present.keys = sampleKeys ∧ j.present.salt = SaltState.new ∧ j.present.pos = Pos.start ∧
        j.past.flatMap (fun conn => conn.session.arrived.filterMap PendingEntry.control) = [] :=
    ⟨_, run_append lightSent_run (run_cons.mpr ⟨_, htake, rfl⟩), rfl, rfl, rfl, rfl, rfl, rfl⟩
  have harrived : j.present.session.arrived =
      [⟨lightText, text, none, 0 + Lifetime.sampleWriter.commandTimeout⟩] := by
    rw [Session.arrived, Session.encrypted, hreceived, hpushed, List.filter_singleton, htext]
    rfl
  obtain ⟨horder, hreads⟩ := controls_in_order sampleCrates_lawful hrun
  refine ⟨j, hrun, ?_, ?_⟩
  · rw [Journal.connections, List.flatMap_append, hpast, List.flatMap_singleton, harrived] at horder
    exact horder
  · obtain ⟨⟨m, hm, hcommands⟩, -⟩ := hreads j.present (List.mem_append_right _ (List.mem_singleton_self _))
      sampleDecrypt ⟨some (sampleKeys.key, sampleKeys.iv), none, []⟩
      (by rw [hkeys, hsalt, hpos]; exact Miniserver.follows_start _ _)
    refine ⟨m, hm, ?_⟩
    rw [hcommands, harrived]
    rfl

end Lox
