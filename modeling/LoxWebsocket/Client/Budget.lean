import LoxWebsocket.Framework.Budget
import LoxWebsocket.Client.Losses

/-!
# The budget of reconnects

The sessions of a run are attempts within the budget of `maxReconnectAttempts`
(`Life.spends`): one that stays connected for `productiveSessionSecs` clears it.
So after the first session, and after each productive one, at most so many are
started up to the next productive one, and the supervisor gives up only after as
many that were not (`reconnect_budget`). With a bound of zero it does not give
up.
-/

namespace Lox

namespace Supervisor

variable {C : Crates} {η σ : Type} {cfg : ConnectConfig}

theorem shouldContinue_iff {attempt maxAttempts : UInt32} (h : maxAttempts ≠ 0) :
    shouldContinue attempt maxAttempts = true ↔ attempt.toNat < maxAttempts.toNat := by
  rw [shouldContinue, beq_false_of_ne h, Bool.false_or, decide_eq_true_iff, UInt32.lt_iff_toNat_lt]

/-- Within the budget the count of attempts does not wrap. -/
theorem Waits.toNat_attempt {s s' : Supervisor η σ} (h : Waits cfg s s') (hN : cfg.maxReconnectAttempts ≠ 0) :
    s'.attempt.toNat = s.attempt.toNat + 1 ∧ s.attempt.toNat < cfg.maxReconnectAttempts.toNat := by
  have hlt := (shouldContinue_iff hN).mp h.left
  have hmax := cfg.maxReconnectAttempts.toNat_lt
  refine ⟨?_, hlt⟩
  rw [h.attempt, UInt32.toNat_add]
  exact Nat.mod_eq_of_lt (by simp; omega)

theorem Went.toNat_attempt {x : SessionResult} {told : List ClientEvent} {s s' : Supervisor η σ}
    (h : Went x told s s') : s'.attempt.toNat = spentAfter s.attempt.toNat x.productive := by
  rw [h.attempt, spentAfter]
  split <;> rfl

section

variable [LoxHandler η] [TokenStore σ] {world : World} {P : Parsers}

/-- The sessions of a run, as attempts within the budget. -/
theorem Life.spends {s : Supervisor η σ} {as : List (Attempt C η σ)} {out : Bool} {d : Bool × Supervisor η σ}
    (h : Life cfg world P s as out d) (hN : cfg.maxReconnectAttempts ≠ 0) :
    Spends cfg.maxReconnectAttempts.toNat s.attempt.toNat
      ((as.map (Attempt.result cfg world P)).map SessionResult.productive) out := by
  induction h with
  | running s => exact .stopped _
  | returned he => exact .stopped _
  | last hw he ho =>
    refine .last fun hout => ?_
    rw [← hw.toNat_attempt]
    have hno := ho hout
    rw [← Bool.not_eq_true, shouldContinue_iff hN] at hno
    exact Nat.le_of_not_lt hno
  | next hw hwait hne h ih =>
    obtain ⟨hnext, hlt⟩ := hwait.toNat_attempt hN
    rw [hnext, hw.toNat_attempt] at ih
    rw [hw.toNat_attempt] at hlt
    exact .again hlt ih

/-- Without a bound there is always an attempt left. -/
theorem Life.not_out {s : Supervisor η σ} {as : List (Attempt C η σ)} {out : Bool} {d : Bool × Supervisor η σ}
    (h : Life cfg world P s as out d) (hN : cfg.maxReconnectAttempts = 0) : out = false := by
  induction h with
  | running s => rfl
  | returned he => rfl
  | @last s s₁ s' a out hw he ho =>
    rw [hN] at ho
    cases out with
    | false => rfl
    | true => cases ho rfl
  | next hw hwait hne h ih => exact ih

variable (cfg world P)

/-- After the first session, and after each productive one, at most
`maxReconnectAttempts` sessions are started up to the next productive one; and
the supervisor gives up only if that is not zero, after so many sessions in a
row that were not. -/
theorem reconnect_budget (rounds : List (Round C σ)) (handler : η) (shared : SharedState σ) :
    (cfg.maxReconnectAttempts ≠ 0 → ∀ pre x seg post,
        (attempts cfg world P rounds (start handler shared)).map (Attempt.result cfg world P) =
          pre ++ x :: (seg ++ post) →
        pre = [] ∨ x.productive = true → (∀ y ∈ seg.dropLast, y.productive = false) →
        seg.length ≤ cfg.maxReconnectAttempts.toNat) ∧
      (givesUp cfg world P rounds (start handler shared) = true → cfg.maxReconnectAttempts ≠ 0 ∧
        ∃ pre x seg, (attempts cfg world P rounds (start handler shared)).map (Attempt.result cfg world P) =
            pre ++ x :: seg ∧
          (pre = [] ∨ x.productive = true) ∧ seg.length = cfg.maxReconnectAttempts.toNat ∧
          ∀ y ∈ seg, y.productive = false) := by
  have hl := loop_life cfg world P rounds (start handler shared)
  refine ⟨fun hN pre x seg post hsplit hx hbad => ?_, fun hup => ?_⟩
  · have hspends := hl.spends hN
    rw [hsplit, List.map_append, List.map_cons, List.map_append] at hspends
    have hcleared : x.productive = true ∨ pre.map SessionResult.productive = [] ∧ (0 : UInt32).toNat = 0 :=
      hx.symm.imp_right fun h => ⟨by rw [h]; rfl, rfl⟩
    have hbad' : ∀ g ∈ (seg.map SessionResult.productive).dropLast, g = false := by
      rw [← List.map_dropLast]
      exact List.forall_mem_map.mpr hbad
    have hle := hspends.length_le_of_cleared rfl hcleared hbad'
    rwa [List.length_map] at hle
  · rw [hup] at hl
    have hN : cfg.maxReconnectAttempts ≠ 0 := fun h => by cases hl.not_out h
    have hpos : 0 < cfg.maxReconnectAttempts.toNat :=
      Nat.pos_of_ne_zero fun h => hN (UInt32.toNat_inj.mp h)
    refine ⟨hN, ?_⟩
    obtain ⟨pre, g, seg, hsplit, hg, hlen, hbad⟩ := (hl.spends hN).exhausted hpos
    obtain ⟨xs, ys, hxy, rfl, hys⟩ := List.map_eq_append_iff.mp hsplit
    obtain ⟨x, zs, rfl, rfl, rfl⟩ := List.map_eq_cons_iff.mp hys
    refine ⟨xs, x, zs, hxy, ?_, by simpa using hlen, by simpa using hbad⟩
    simpa using hg

end

/-! ## One attempt -/

/-- The key exchange is refused once the only attempt has been spent. -/
theorem round_refused {s : Supervisor Unit (Option LxToken)} (h : Reusing s) (hev : s.everConnected = true)
    (hspent : s.attempt = 1) :
    (round (reuseConfig 1) sampleWorld TokenRace.sampleParsers (closedRound [0x03, 0xE9]) s).1 = false ∧
      exhausted (reuseConfig 1) sampleWorld TokenRace.sampleParsers (closedRound [0x03, 0xE9]) s = true := by
  have hreads : (closedRound [0x03, 0xE9]).session.reads = [] ++ .frame .close [0x03, 0xE9] :: [] := rfl
  obtain ⟨e, hs, hplain, -, hsess⟩ := sessionOnce_handshake (reuseConfig 1) sampleWorld TokenRace.sampleParsers
    (w := (closedRound [0x03, 0xE9]).session) (s := s.starting) rfl hreads (by simp [NoFrames]) List.nil_suffix
  generalize hs₁ : ({ s.starting with handler := hs.handler, shared := hs.shared } : Supervisor _ _) = s₁ at hsess
  have hafter : afterSession ⟨.failed e, true, none⟩ s₁ = { s₁ with cmdRx := true } := rfl
  have hev₁ : s₁.everConnected = true := by
    rw [← hs₁]
    exact hev
  have hleft : shouldContinue s₁.attempt (reuseConfig 1).maxReconnectAttempts = false := by
    have hatt : s₁.attempt = 1 := by
      rw [← hs₁]
      exact hspent
    rw [hatt]
    rfl
  constructor
  · rw [round_eq _ _ _ rfl h.panicked h.cmdRx, hsess, hafter, react_plain _ hplain, if_pos hev₁]
    refine waitReconnect_ends _ (fun hgo => ?_) _
    rw [hleft] at hgo
    cases hgo.2
  · have hattempted : attempted (closedRound [0x03, 0xE9]) s =
        some ⟨(closedRound [0x03, 0xE9]).session, s.starting⟩ := by
      rw [attempted, h.panicked, h.cmdRx]
      rfl
    simp only [exhausted, hattempted, hsess, hafter, onOutcome, hplain.1, hev₁]
    change (!shouldContinue s₁.attempt (reuseConfig 1).maxReconnectAttempts) = true
    rw [hleft]
    rfl

/-- A session that falls silent and a reconnect that is refused: the supervisor
gives up. -/
theorem reconnect_budget_one :
    givesUp (reuseConfig 1) sampleWorld TokenRace.sampleParsers [idleRound, closedRound [0x03, 0xE9]]
        (start () reusing) = true ∧
      ∃ pre x seg, (attempts (reuseConfig 1) sampleWorld TokenRace.sampleParsers
            [idleRound, closedRound [0x03, 0xE9]] (start () reusing)).map
          (Attempt.result (reuseConfig 1) sampleWorld TokenRace.sampleParsers) = pre ++ x :: seg ∧
        (pre = [] ∨ x.productive = true) ∧ seg.length = 1 ∧ ∀ y ∈ seg, y.productive = false := by
  have hstart : Reusing (start () reusing) := ⟨rfl, rfl, rfl⟩
  obtain ⟨s₁, hr₁, h₁, hev₁, hatt, -⟩ := round_idle takesBack_sample (n := 1) hstart rfl
  obtain ⟨hr₂, hx⟩ := round_refused h₁ hev₁ (hatt.trans rfl)
  have hup : givesUp (reuseConfig 1) sampleWorld TokenRace.sampleParsers [idleRound, closedRound [0x03, 0xE9]]
      (start () reusing) = true := by
    rw [givesUp, hr₁]
    simp only [givesUp]
    rcases hd : round (reuseConfig 1) sampleWorld TokenRace.sampleParsers (closedRound [0x03, 0xE9]) s₁ with ⟨go, s₂⟩
    rw [hd] at hr₂
    cases hr₂
    exact hx
  exact ⟨hup, ((reconnect_budget _ _ _ _ _ _).2 hup).2⟩

end Supervisor

end Lox
