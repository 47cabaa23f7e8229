import LoxWebsocket.Crypto.Pipeline

/-!
# The salt chain

A Miniserver that remembers one active salt (`checkSalt`) accepts every
command of a run of `SaltState.encrypt`, whatever the commands, the clock and
the salts drawn (`salt_chain`); each salt is carried by at most
`saltMaxUseCount + 1` commands, and by none that is sent more than
`saltMaxAgeSeconds` after it was drawn. Salts are told apart by the draw they
come from, since two draws may give the same bytes.

One command either keeps the active salt or draws a new one (`encrypt_moves`),
and keeps client and Miniserver in step (`encrypt_received`).
-/

namespace Lox

variable {C : Crates}

/-! ## The Miniserver -/

/-- The plaintext of an encrypted text, as its receiver opens it. -/
def openText (C : Crates) (key : Key) (iv : Iv) (text : Str) : Option Bytes := do
  let body ← cmdEncrypt.isPrefixOf? text
  let encoded ← fromUtf8 (percentDecode (utf8 body))
  let cipherText ← b64Decode encoded
  C.decryptBlocks key iv cipherText

/-- The salt that is active after a plaintext, if it is accepted: `salt/x/…`
with no salt active or `x` active, `nextSalt/p/n/…` with `p` active. -/
def checkSalt (active : Option Bytes) (plain : Bytes) : Option Bytes :=
  match (utf8 SaltState.nextSaltTag).isPrefixOf? plain with
  | some rest => do
    let (previous, rest) ← splitOnce SaltState.slash rest
    let (next, _) ← splitOnce SaltState.slash rest
    if active = some previous then some next else none
  | none => do
    let rest ← (utf8 SaltState.saltTag).isPrefixOf? plain
    let (x, _) ← splitOnce SaltState.slash rest
    if active = none ∨ active = some x then some x else none

/-- The active salt after each of the texts, if all are accepted. -/
def receiveAll (keys : SessionKeys C) : Option Bytes → List (Except Error Str) → Option (List Bytes)
  | _, [] => some []
  | _, .error _ :: _ => none
  | active, .ok text :: texts => do
    let plain ← openText C keys.key keys.iv text
    let active ← checkSalt active plain
    let later ← receiveAll keys (some active) texts
    return active :: later

theorem checkSalt_salt {active : Option Bytes} {x : Bytes} (hx : SaltState.slash ∉ x)
    (ha : active = none ∨ active = some x) (rest : Bytes) :
    checkSalt active (utf8 SaltState.saltTag ++ x ++ [SaltState.slash] ++ rest) = some x := by
  have hn : (utf8 SaltState.nextSaltTag).isPrefixOf?
      (utf8 SaltState.saltTag ++ (x ++ SaltState.slash :: rest)) = none := rfl
  simp only [checkSalt, List.append_assoc, List.singleton_append, hn, isPrefixOf?_append,
    Option.bind_eq_bind, Option.bind_some, splitOnce_append hx, if_pos ha]

theorem checkSalt_nextSalt {previous next : Bytes} (hp : SaltState.slash ∉ previous)
    (hn : SaltState.slash ∉ next) (rest : Bytes) :
    checkSalt (some previous) (utf8 SaltState.nextSaltTag ++ previous ++ [SaltState.slash] ++ next ++
      [SaltState.slash] ++ rest) = some next := by
  simp only [checkSalt, List.append_assoc, List.cons_append, List.nil_append, isPrefixOf?_append,
    Option.bind_eq_bind, Option.bind_some, splitOnce_append hp, splitOnce_append hn, if_true]

theorem slash_notMem_hex (b : Bytes) : SaltState.slash ∉ utf8 (hexEncode b) := by
  have key : ∀ c ∈ "0123456789abcdef".toList, SaltState.slash ∉ String.utf8EncodeChar c :=
    List.all_iff_forall_prop.mp (by decide)
  rw [utf8, List.mem_flatMap]
  rintro ⟨c, hc, hs⟩
  exact key c (mem_hexEncode hc) hs

/-- The receiver gets back what was padded and encrypted. -/
theorem openText_encrypt (hC : C.Lawful) (w : World) (keys : SessionKeys C) (st : SaltState) (p : Pos)
    (command : Str) :
    ∃ text, (st.encrypt w keys p command).1 = .ok text ∧ openText C keys.key keys.iv text =
      some (padZero (utf8 (st.saltedText w p command) ++ [0])) := by
  obtain ⟨c, hc, -, he⟩ := st.encrypt_spec hC.toTotal w keys p command
  refine ⟨_, by rw [he], ?_⟩
  simp only [openText, isPrefixOf?_append, Option.bind_eq_bind, Option.bind_some,
    percentDecode_encode, fromUtf8_utf8, b64Decode_encode]
  exact hC.decrypt_encrypt _ _ _ _ hc

/-! ## One command -/

namespace SaltState

/-- The salt of the last draw. -/
def drawnSalt (w : World) (p : Pos) : Str := hexEncode (w.rng (p.draws - 1)).toList

/-- The clock reading last made. -/
def lastReading (w : World) (p : Pos) : UInt64 := w.clock (p.ticks - 1)

/-- The command went under the active salt. -/
structure Kept (w : World) (st : SaltState) (p : Pos) (st' : SaltState) (p' : Pos) : Prop where
  active : st.salt ≠ []
  salt : st'.salt = st.salt
  count : st'.saltUsedCount.toNat = st.saltUsedCount.toNat + 1
  count_le : st'.saltUsedCount.toNat ≤ saltMaxUseCount.toNat
  stamp : st'.saltTimeStamp = st.saltTimeStamp
  draws : p'.draws = p.draws
  age : (lastReading w p').toNat ≤ st.saltTimeStamp.toNat + saltMaxAgeSeconds.toNat

/-- The command drew its salt. -/
structure Drew (w : World) (p : Pos) (st' : SaltState) (p' : Pos) : Prop where
  salt : st'.salt = drawnSalt w p'
  count : st'.saltUsedCount = 0
  stamp : st'.saltTimeStamp = lastReading w p'
  draws : p'.draws = p.draws + 1

/-- What the count and the clock say when no new salt is needed. -/
theorem of_not_needed {w : World} {st : SaltState} {p : Pos} (hn : needed w st p = false)
    (hc : st.saltUsedCount.toNat ≤ saltMaxUseCount.toNat) :
    (st.saltUsedCount + 1).toNat = st.saltUsedCount.toNat + 1 ∧
    (st.saltUsedCount + 1).toNat ≤ saltMaxUseCount.toNat ∧
    neededTicks st p = p.ticks + 1 ∧
    (w.clock p.ticks).toNat ≤ st.saltTimeStamp.toNat + saltMaxAgeSeconds.toNat := by
  simp only [needed, Bool.or_eq_false_iff, decide_eq_false_iff_not, gt_iff_lt, UInt32.lt_iff_toNat_lt,
    UInt64.lt_iff_toNat_lt, toNat_saturatingSub, Nat.not_lt] at hn
  have h30 : saltMaxUseCount.toNat = 30 := rfl
  have h1 : (st.saltUsedCount + 1).toNat = st.saltUsedCount.toNat + 1 := by
    rw [UInt32.toNat_add, show (1 : UInt32).toNat = 1 from rfl]; omega
  refine ⟨h1, hn.1, ?_, by omega⟩
  rw [neededTicks, if_neg]
  simp only [gt_iff_lt, UInt32.lt_iff_toNat_lt]; omega

/-- A command keeps the active salt or draws a new one. -/
theorem fill_moves (w : World) {st : SaltState} (hc : st.saltUsedCount.toNat ≤ saltMaxUseCount.toNat)
    (p : Pos) (command : Str) :
    let r := st.fillSaltedPlaintext w p command
    Kept w st p r.1 r.2 ∨ Drew w p r.1 r.2 := by
  by_cases hs : st.salt = []
  · rw [fill_first w hs]
    exact .inr ⟨rfl, rfl, rfl, rfl⟩
  · cases hn : needed w st p with
    | true =>
      rw [fill_rotate w hs hn]
      exact .inr ⟨rfl, rfl, rfl, rfl⟩
    | false =>
      obtain ⟨h1, h2, h3, h4⟩ := of_not_needed hn hc
      rw [fill_same w hs hn]
      refine .inl ⟨hs, rfl, h1, h2, rfl, rfl, ?_⟩
      rw [lastReading, h3, Nat.add_sub_cancel]
      exact h4

theorem encrypt_moves (hC : C.Total) (w : World) (keys : SessionKeys C) {st : SaltState}
    (hc : st.saltUsedCount.toNat ≤ saltMaxUseCount.toNat) (p : Pos) (command : Str) :
    let r := st.encrypt w keys p command
    Kept w st p r.2.1 r.2.2 ∨ Drew w p r.2.1 r.2.2 := by
  obtain ⟨c, -, -, he⟩ := st.encrypt_spec hC w keys p command
  rw [he]
  rcases fill_moves w hc p command with h | h
  · exact .inl ⟨h.active, h.salt, h.count, h.count_le, h.stamp, h.draws, h.age⟩
  · exact .inr ⟨h.salt, h.count, h.stamp, h.draws⟩

/-- Client and Miniserver in step: neither has a salt yet, or both have the one
drawn last. -/
structure InStep (w : World) (st : SaltState) (p : Pos) (active : Option Bytes) : Prop where
  count_le : st.saltUsedCount.toNat ≤ saltMaxUseCount.toNat
  salt : st.salt = [] ∧ active = none ∨
    st.salt ≠ [] ∧ st.salt = drawnSalt w p ∧ active = some (utf8 (drawnSalt w p))

theorem drawnSalt_ne_nil (w : World) (p : Pos) : drawnSalt w p ≠ [] := by
  intro h
  have := congrArg List.length h
  simp [drawnSalt, length_hexEncode] at this

/-- The plaintext of the next command is accepted, and its salt is the one
drawn last by then. -/
theorem checkSalt_saltedText {w : World} {st : SaltState} {p : Pos} {active : Option Bytes}
    (h : InStep w st p active) (command : Str) (rest : Bytes) :
    checkSalt active (utf8 (st.saltedText w p command) ++ rest) =
      some (utf8 (drawnSalt w (st.fillSaltedPlaintext w p command).2)) := by
  have hd := slash_notMem_hex (w.rng (p.draws - 1)).toList
  have hn := slash_notMem_hex (w.rng p.draws).toList
  rcases h.salt with ⟨hs, rfl⟩ | ⟨hs, he, rfl⟩
  · rw [saltedText, if_pos hs, utf8_saltText, List.append_assoc _ (utf8 command),
      checkSalt_salt hn (.inl rfl), fill_first w hs]
    rfl
  · rw [saltedText, if_neg hs]
    cases hneed : needed w st p with
    | true =>
      rw [if_pos rfl, utf8_nextSaltText, List.append_assoc _ (utf8 command), he, drawnSalt,
        checkSalt_nextSalt hd hn, fill_rotate w hs hneed]
      rfl
    | false =>
      rw [if_neg Bool.false_ne_true, utf8_saltText, List.append_assoc _ (utf8 command), he, drawnSalt,
        checkSalt_salt hd (.inr rfl), fill_same w hs hneed]
      rfl

/-- The Miniserver accepts the next command, and stays in step. -/
theorem encrypt_received (hC : C.Lawful) {w : World} (keys : SessionKeys C) {st : SaltState} {p : Pos}
    {active : Option Bytes} (h : InStep w st p active) (command : Str) :
    let r := st.encrypt w keys p command
    (∃ text plain, r.1 = .ok text ∧ openText C keys.key keys.iv text = some plain ∧
      checkSalt active plain = some (utf8 (drawnSalt w r.2.2))) ∧
    InStep w r.2.1 r.2.2 (some (utf8 (drawnSalt w r.2.2))) := by
  intro r
  refine ⟨?_, ?_⟩
  · obtain ⟨text, ht, ho⟩ := openText_encrypt hC w keys st p command
    obtain ⟨c, -, -, he⟩ := st.encrypt_spec hC.toTotal w keys p command
    refine ⟨text, _, ht, ho, ?_⟩
    rw [padZero, List.append_assoc, checkSalt_saltedText h]
    simp only [r, he]
  · rcases encrypt_moves hC.toTotal w keys h.count_le p command with hk | hd
    · refine ⟨hk.count_le, .inr ⟨hk.salt ▸ hk.active, ?_, rfl⟩⟩
      rcases h.salt with ⟨hs, -⟩ | ⟨-, he, -⟩
      · exact absurd hs hk.active
      · rw [hk.salt, he, drawnSalt, drawnSalt, hk.draws]
    · exact ⟨by rw [hd.count]; decide, .inr ⟨hd.salt ▸ drawnSalt_ne_nil w _, hd.salt, rfl⟩⟩

end SaltState

/-! ## Runs -/

/-- A command that was sent: its text, the number of salts drawn by then (it
carries the last of them), whether it drew that salt itself, and the clock
reading last made. -/
structure Sent where
  text : Except Error Str
  drawn : Nat
  fresh : Bool
  now : UInt64

/-- A run of `encrypt`. -/
def encryptAll (w : World) (keys : SessionKeys C) : SaltState → Pos → List Str → List Sent
  | _, _, [] => []
  | st, p, command :: commands =>
    let (text, st', p') := st.encrypt w keys p command
    ⟨text, p'.draws, decide (p.draws < p'.draws), SaltState.lastReading w p'⟩ ::
      encryptAll w keys st' p' commands

open SaltState

theorem receiveAll_encryptAll (hC : C.Lawful) (w : World) (keys : SessionKeys C) (commands : List Str) :
    ∀ {st : SaltState} {p : Pos} {active : Option Bytes}, InStep w st p active →
      receiveAll keys active ((encryptAll w keys st p commands).map Sent.text) =
        some ((encryptAll w keys st p commands).map
          fun s => utf8 (hexEncode (w.rng (s.drawn - 1)).toList)) := by
  induction commands with
  | nil => intros; rfl
  | cons command commands ih =>
    intro st p active h
    obtain ⟨⟨text, plain, ht, ho, hc⟩, h'⟩ := encrypt_received hC keys h command
    simp only [encryptAll, List.map_cons, ht, receiveAll, ho, hc, ih h', Option.bind_eq_bind,
      Option.bind_some, Option.pure_def]
    rfl

/-- How many commands of a run may carry the salt of draw number `d`, counted
from one. -/
def saltBudget (st : SaltState) (p : Pos) (d : Nat) : Nat :=
  if d < p.draws then 0
  else if d = p.draws then if st.salt = [] then 0 else saltMaxUseCount.toNat - st.saltUsedCount.toNat
  else saltMaxUseCount.toNat + 1

theorem countP_encryptAll (hC : C.Total) (w : World) (keys : SessionKeys C) (d : Nat)
    (commands : List Str) :
    ∀ {st : SaltState} {p : Pos}, st.saltUsedCount.toNat ≤ saltMaxUseCount.toNat →
      (encryptAll w keys st p commands).countP (·.drawn = d) ≤ saltBudget st p d := by
  induction commands with
  | nil => intros; exact Nat.zero_le _
  | cons command commands ih =>
    intro st p hc
    simp only [encryptAll, List.countP_cons, decide_eq_true_eq]
    rcases encrypt_moves hC w keys hc p command with hk | hd
    · refine Nat.le_trans (Nat.add_le_add_right (ih hk.count_le) _) ?_
      have hs : (st.encrypt w keys p command).2.1.salt ≠ [] := hk.salt ▸ hk.active
      have hl := hk.count_le
      rw [hk.count] at hl
      simp only [saltBudget, hk.draws, hs, hk.active, if_false, hk.count]
      split_ifs <;> omega
    · have h0 : (st.encrypt w keys p command).2.1.saltUsedCount.toNat = 0 := by rw [hd.count]; rfl
      refine Nat.le_trans (Nat.add_le_add_right (ih (by rw [h0]; exact Nat.zero_le _)) _) ?_
      have hs : (st.encrypt w keys p command).2.1.salt ≠ [] := hd.salt ▸ drawnSalt_ne_nil w _
      simp only [saltBudget, hd.draws, hs, if_false, h0]
      split_ifs <;> omega

/-- A command of a run carries the salt the run starts with, or one that the
run draws, within its age. -/
theorem age_encryptAll (hC : C.Total) (w : World) (keys : SessionKeys C) (commands : List Str) :
    ∀ {st : SaltState} {p : Pos}, st.saltUsedCount.toNat ≤ saltMaxUseCount.toNat →
      ∀ b ∈ encryptAll w keys st p commands,
        (st.salt ≠ [] ∧ b.drawn = p.draws ∧
          b.now.toNat ≤ st.saltTimeStamp.toNat + saltMaxAgeSeconds.toNat) ∨
        ∃ a ∈ encryptAll w keys st p commands, a.fresh = true ∧ a.drawn = b.drawn ∧
          b.now.toNat ≤ a.now.toNat + saltMaxAgeSeconds.toNat := by
  induction commands with
  | nil => intro st p _ b hb; cases hb
  | cons command commands ih =>
    intro st p hc b hb
    simp only [encryptAll, List.mem_cons, exists_eq_or_imp] at hb ⊢
    rcases encrypt_moves hC w keys hc p command with hk | hd
    · rcases hb with rfl | hb
      · exact .inl ⟨hk.active, hk.draws, hk.age⟩
      · rcases ih hk.count_le b hb with ⟨-, h₂, h₃⟩ | ⟨a, ha, h⟩
        · exact .inl ⟨hk.active, h₂.trans hk.draws, hk.stamp ▸ h₃⟩
        · exact .inr (.inr ⟨a, ha, h⟩)
    · have hf : p.draws < (st.encrypt w keys p command).2.2.draws := by rw [hd.draws]; omega
      refine .inr ?_
      rcases hb with rfl | hb
      · exact .inl ⟨decide_eq_true hf, rfl, Nat.le_add_right _ _⟩
      · rcases ih (by rw [hd.count]; exact Nat.zero_le _) b hb with ⟨-, h₂, h₃⟩ | ⟨a, ha, h⟩
        · exact .inl ⟨decide_eq_true hf, h₂.symm, hd.stamp ▸ h₃⟩
        · exact .inr ⟨a, ha, h⟩

/-- A run from a fresh state: the Miniserver accepts every command, its active
salt being the one the command carries; no salt is carried by more than
`saltMaxUseCount + 1` commands; and every command is sent at most
`saltMaxAgeSeconds` after the command that drew its salt. -/
theorem salt_chain (hC : C.Lawful) (w : World) (keys : SessionKeys C) (p : Pos) (commands : List Str) :
    let sent := encryptAll w keys SaltState.new p commands
    receiveAll keys none (sent.map Sent.text) =
      some (sent.map fun s => utf8 (hexEncode (w.rng (s.drawn - 1)).toList)) ∧
    (∀ d, sent.countP (·.drawn = d) ≤ saltMaxUseCount.toNat + 1) ∧
    ∀ b ∈ sent, ∃ a ∈ sent, a.fresh = true ∧ a.drawn = b.drawn ∧
      b.now.toNat ≤ a.now.toNat + saltMaxAgeSeconds.toNat := by
  have h0 : SaltState.new.saltUsedCount.toNat ≤ saltMaxUseCount.toNat := by decide
  refine ⟨receiveAll_encryptAll hC w keys commands ⟨h0, .inl ⟨rfl, rfl⟩⟩, fun d => ?_, fun b hb => ?_⟩
  · refine Nat.le_trans (countP_encryptAll hC.toTotal w keys d commands h0) ?_
    rw [saltBudget]
    split_ifs <;> omega
  · rcases age_encryptAll hC.toTotal w keys commands h0 b hb with ⟨hs, -⟩ | h
    · exact absurd rfl hs
    · exact h

/-- The clock moves on by more than an hour from one reading to the next, and the salts
are drawn in order. -/
def hourlyWorld : World := ⟨fun n => 1700000000 + 4000 * UInt64.ofNat n, fun n => Vector.replicate 16 (UInt8.ofNat n)⟩

/-- The second command comes with a new salt. -/
theorem salt_chain_rotated :
    sampleCrates.Lawful ∧
    receiveAll sampleKeys none ((encryptAll hourlyWorld sampleKeys SaltState.new Pos.start
      [sampleCommand, sampleCommand]).map Sent.text) =
        some [utf8 (hexEncode (List.replicate 16 0)), utf8 (hexEncode (List.replicate 16 1))] := by
  obtain ⟨hreceived, -, -⟩ := salt_chain sampleCrates_lawful hourlyWorld sampleKeys Pos.start
    [sampleCommand, sampleCommand]
  have hdrawn : (encryptAll hourlyWorld sampleKeys SaltState.new Pos.start [sampleCommand, sampleCommand]).map
      Sent.drawn = [1, 2] := by decide +kernel
  have hsalts : (encryptAll hourlyWorld sampleKeys SaltState.new Pos.start [sampleCommand, sampleCommand]).map
      (fun s => utf8 (hexEncode (hourlyWorld.rng (s.drawn - 1)).toList)) =
        [1, 2].map fun drawn => utf8 (hexEncode (hourlyWorld.rng (drawn - 1)).toList) := by
    rw [← hdrawn, List.map_map]
    rfl
  exact ⟨sampleCrates_lawful, hreceived.trans (congrArg some hsalts)⟩

end Lox
