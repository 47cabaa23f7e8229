import LoxWebsocket.Client.Control

/-!
# Spellings of an echo

An answer names an encrypted command by the text it was sent as, and `canonical`
folds the spellings of it: whitespace around it, NULs and a slash, and `dev` for
`jdev`. A text that is not known is decrypted, and `decodeControl` takes it as it is.
Of the spellings of a text (`canonical_spelling`), those are decrypted to its command
that add nothing behind it and keep the `j` (`decodeControl_spelling`).
-/

namespace Lox

/-! ## What is stripped -/

/-- What is stripped behind a command. -/
def IsBlank (c : Char) : Prop := isWhiteSpace c = true ∨ c = '\x00'

theorem not_isBlank_of_all {l : Str} (h : l.all (fun c => !isWhiteSpace c && c != '\x00') = true) {c : Char}
    (hc : c ∈ l) : ¬ IsBlank c := by
  have hboth := List.all_eq_true.mp h c hc
  rw [Bool.and_eq_true, Bool.not_eq_true', bne_iff_ne] at hboth
  rintro (hwhite | hnul)
  · exact absurd hwhite (by rw [hboth.1]; decide)
  · exact hboth.2 hnul

theorem exists_append_trim (s : Str) : ∃ front back, s = front ++ (trim s ++ back) ∧
    (∀ c ∈ front, isWhiteSpace c = true) ∧ ∀ c ∈ back, isWhiteSpace c = true := by
  refine ⟨s.takeWhile isWhiteSpace, (s.dropWhile isWhiteSpace).rtakeWhile isWhiteSpace, ?_,
    fun c hc => List.mem_takeWhile_imp hc, fun c hc => List.mem_rtakeWhile_imp hc⟩
  rw [trim, List.rdropWhile_append_rtakeWhile, List.takeWhile_append_dropWhile]

/-- Trimming stops at a character that stays. -/
theorem trim_append {front l m : Str} {x : Char} (hfront : ∀ c ∈ front, isWhiteSpace c = true)
    (hhead : ∀ c ∈ (l ++ [x]).head?, isWhiteSpace c = false) (hx : isWhiteSpace x = false) :
    trim (front ++ (l ++ x :: m)) = l ++ x :: m.rdropWhile isWhiteSpace := by
  have hdrop : (l ++ x :: m).dropWhile isWhiteSpace = l ++ x :: m := by
    cases l with
    | nil => exact List.dropWhile_cons_of_neg (by simp [hx])
    | cons y l => exact List.dropWhile_cons_of_neg (by simp [hhead y rfl])
  rw [trim, List.dropWhile_append_of_pos hfront, hdrop, rdropWhile_append_cons hx]

theorem trimNul_append {x : Char} (hx : x ≠ '\x00') (l m : Str) : trimNul (l ++ x :: m) = l ++ x :: trimNul m :=
  rdropWhile_append_cons (q := (· == '\x00')) (beq_false_of_ne hx) l m

theorem exists_append_trimNul (s : Str) : ∃ back, s = trimNul s ++ back ∧ ∀ c ∈ back, c = '\x00' := by
  refine ⟨s.rtakeWhile (· == '\x00'), List.rdropWhile_append_rtakeWhile.symm, fun c hc => ?_⟩
  have hnul := List.mem_rtakeWhile_imp hc
  exact beq_iff_eq.mp hnul

theorem canonical_eq (s : Str) : canonical s =
    ((['j'].isPrefixOf? ((['/'].isPrefixOf? (trimNul (trim s))).getD (trimNul (trim s)))).filter
      fun rest => "dev/".toList.isPrefixOf rest).getD
        ((['/'].isPrefixOf? (trimNul (trim s))).getD (trimNul (trim s))) :=
  rfl

/-- A text is its canonical form with what was stripped. -/
theorem canonical_spelling (s : Str) : ∃ front start back, s = front ++ (start ++ (canonical s ++ back)) ∧
    (∀ c ∈ front, isWhiteSpace c = true) ∧ (∀ c ∈ back, IsBlank c) ∧
    (start = [] ∨ start = ['/'] ∨ start = ['j'] ∨ start = ['/', 'j']) := by
  obtain ⟨front, white, hs, hfront, hwhite⟩ := exists_append_trim s
  obtain ⟨nuls, htrim, hnuls⟩ := exists_append_trimNul (trim s)
  -- the slash, then the `j`
  obtain ⟨slash, hslash, hpath⟩ : ∃ slash, (slash = [] ∨ slash = ['/']) ∧
      trimNul (trim s) = slash ++ (['/'].isPrefixOf? (trimNul (trim s))).getD (trimNul (trim s)) := by
    cases h : ['/'].isPrefixOf? (trimNul (trim s)) with
    | none => exact ⟨[], .inl rfl, rfl⟩
    | some path => exact ⟨['/'], .inr rfl, isPrefixOf?_eq_some.mp h⟩
  obtain ⟨j, hj, hcanonical⟩ : ∃ j, (j = [] ∨ j = ['j']) ∧
      (['/'].isPrefixOf? (trimNul (trim s))).getD (trimNul (trim s)) = j ++ canonical s := by
    rw [canonical_eq]
    generalize (['/'].isPrefixOf? (trimNul (trim s))).getD (trimNul (trim s)) = path
    cases h : (['j'].isPrefixOf? path).filter fun rest => "dev/".toList.isPrefixOf rest with
    | none => exact ⟨[], .inl rfl, rfl⟩
    | some rest => exact ⟨['j'], .inr rfl, isPrefixOf?_eq_some.mp (Option.filter_eq_some_iff.mp h).1⟩
  refine ⟨front, slash ++ j, nuls ++ white, ?_, hfront, ?_, ?_⟩
  · have hall : trim s = slash ++ (j ++ canonical s) ++ nuls := by rw [← hcanonical, ← hpath, ← htrim]
    rw [hall] at hs
    simpa only [List.append_assoc] using hs
  · intro c hc
    rcases List.mem_append.mp hc with hc | hc
    · exact .inr (hnuls c hc)
    · exact .inl (hwhite c hc)
  · rcases hslash with rfl | rfl <;> rcases hj with rfl | rfl <;> simp

/-! ## The text of a command -/

/-- The text without its `j`. -/
def devEncrypt : Str := "dev/sys/enc/".toList

theorem not_isBlank_of_mem_percentEncode {s : Str} {c : Char} (h : c ∈ percentEncode s) : ¬ IsBlank c := by
  rcases mem_percentEncode h with h | rfl
  · have hge := isAlphanum_ge h
    have hlt := isAlphanum_lt h
    rintro (hwhite | rfl)
    · simp only [isWhiteSpace, Bool.or_eq_true, Bool.and_eq_true, decide_eq_true_eq, beq_iff_eq] at hwhite
      omega
    · exact absurd hge (by decide)
  · rintro (h | h) <;> exact absurd h (by decide)

theorem not_isBlank_of_mem_wire {s : Str} {c : Char} (h : c ∈ cmdEncrypt ++ percentEncode s) : ¬ IsBlank c := by
  rcases List.mem_append.mp h with hc | hc
  · exact not_isBlank_of_all (l := cmdEncrypt) (by decide) hc
  · exact not_isBlank_of_mem_percentEncode hc

theorem trimNul_trim_of_not_isBlank {s : Str} (h : ∀ c ∈ s, ¬ IsBlank c) : trimNul (trim s) = s := by
  have hfront : s.dropWhile isWhiteSpace = s := by
    rw [List.dropWhile_eq_self_iff]
    exact fun hlen hwhite => h _ (List.getElem_mem hlen) (.inl hwhite)
  have htrim : trim s = s := by
    rw [trim, hfront, List.rdropWhile_eq_self_iff]
    exact fun hne hwhite => h _ (List.getLast_mem hne) (.inl hwhite)
  rw [htrim, trimNul, List.rdropWhile_eq_self_iff]
  exact fun hne hnul => h _ (List.getLast_mem hne) (.inr (beq_iff_eq.mp hnul))

theorem canonical_wire (s : Str) :
    canonical (cmdEncrypt ++ percentEncode s) = devEncrypt ++ percentEncode s := by
  rw [canonical_eq, trimNul_trim_of_not_isBlank fun c hc => not_isBlank_of_mem_wire hc]
  rfl

/-- The verb of a text, whichever way it is spelt. -/
theorem verb_of_canonical {s e : Str} (h : canonical e = devEncrypt ++ percentEncode s) :
    verb e = "dev/sys/enc".toList := by
  have hdev : devEncrypt = ['d', 'e', 'v', '/', 's', 'y', 's', '/', 'e', 'n', 'c', '/'] := by decide
  have hlabel : "dev/".toList = ['d', 'e', 'v', '/'] := by decide
  have hverb : "dev/sys/enc".toList = ['d', 'e', 'v', '/', 's', 'y', 's', '/', 'e', 'n', 'c'] := by decide
  rw [verb, h, hdev, hlabel, hverb]
  generalize percentEncode s = rest
  simp [takeSegments, List.splitOn, List.splitOnP_cons_eq_if_modifyHead]

/-! ## Decrypting a spelling -/

variable {C : Crates}

theorem slash_notMem_of_blank {back : Str} (h : ∀ c ∈ back, IsBlank c) : '/' ∉ back := fun hmem => by
  rcases h _ hmem with h | h <;> exact absurd h (by decide)

/-- Blanks are not decoded, and they are no Base64. -/
theorem percent_notMem_of_blank {back : Str} (h : ∀ c ∈ back, IsBlank c) : 37 ∉ utf8 back := fun h37 => by
  have hmem : '%' ∈ back := mem_of_mem_utf8 (by decide) h37
  rcases h _ hmem with h | h <;> exact absurd h (by decide)

theorem not_b64_of_blank {c : Char} (h : IsBlank c) : ¬ (c ∈ b64Alphabet ∨ c = '=') := by
  intro hmem
  exact not_isBlank_of_all (l := b64Alphabet ++ ['=']) (by decide) (by simpa using hmem) h

theorem afterLast_spelling (front : Str) (s : Str) {back : Str} (hback : ∀ c ∈ back, IsBlank c) :
    afterLast cmdEncrypt (front ++ (cmdEncrypt ++ (percentEncode s ++ back))) = some (percentEncode s ++ back) := by
  have hslash : '/' ∉ percentEncode s ++ back := by
    rw [List.mem_append, not_or]
    exact ⟨slash_notMem_percentEncode s, slash_notMem_of_blank hback⟩
  have hcmd : cmdEncrypt = "jdev/sys/enc".toList ++ ['/'] := by decide
  refine afterLast_append_left ?_ front
  rw [hcmd, List.append_assoc, List.singleton_append]
  exact afterLast_append hslash

/-- Blanks behind the text are taken for a part of it. -/
theorem decryptControlResponse_blank (keys : SessionKeys C) (front s : Str) {back : Str}
    (hback : ∀ c ∈ back, IsBlank c) (hne : back ≠ []) :
    ∃ err, keys.decryptControlResponse (front ++ (cmdEncrypt ++ (percentEncode s ++ back))) = .error err := by
  have hdecode : percentDecode (utf8 (percentEncode s ++ back)) = utf8 (s ++ back) := by
    rw [utf8_append, percentDecode_encode_append, percentDecode_of_notMem (percent_notMem_of_blank hback), utf8_append]
  have hb64 : b64Decode (s ++ back) = none := by
    rw [Option.eq_none_iff_forall_ne_some]
    intro b hb
    obtain ⟨c, hc⟩ := List.exists_mem_of_ne_nil back hne
    exact not_b64_of_blank (hback c hc) (mem_of_b64Decode hb c (List.mem_append_right s hc))
  simp only [SessionKeys.decryptControlResponse, afterLast_spelling front s hback, Option.getD_some, hdecode,
    fromUtf8_utf8, hb64, bind, Except.bind]
  exact ⟨_, rfl⟩

/-- What is in front of the text is not looked at. -/
theorem decryptControlResponse_front (keys : SessionKeys C) (front s : Str) :
    keys.decryptControlResponse (front ++ (cmdEncrypt ++ percentEncode s)) =
      keys.decryptControlResponse (cmdEncrypt ++ percentEncode s) := by
  have hnil : ∀ c ∈ ([] : Str), IsBlank c := by simp
  have hfront := afterLast_spelling front s hnil
  have hwire := afterLast_spelling [] s hnil
  rw [List.append_nil] at hfront hwire
  rw [List.nil_append] at hwire
  rw [SessionKeys.decryptControlResponse, SessionKeys.decryptControlResponse, hfront, hwire]
  rfl

/-- Without its `j` the text is not taken for an encrypted one. -/
theorem not_infix_of_dev {front s back : Str} (hfront : 'j' ∉ front) (hback : ∀ c ∈ back, IsBlank c) :
    ¬ cmdEncrypt <:+: front ++ (devEncrypt ++ (percentEncode s ++ back)) := by
  have hcmd : cmdEncrypt = 'j' :: ("dev/sys/enc".toList ++ ['/']) := by decide
  rw [hcmd, ← List.append_assoc]
  refine not_infix_of_notMem ?_ ?_
  · rw [List.mem_append, not_or]
    exact ⟨hfront, by decide⟩
  · rw [List.mem_append, not_or]
    exact ⟨slash_notMem_percentEncode s, slash_notMem_of_blank hback⟩

/-- A spelling of the text of a command: whole, and behind whatever is in front of
it; with blanks behind it; or without its `j`. -/
theorem spelling_cases {e s : Str} (h : canonical e = devEncrypt ++ percentEncode s) :
    (∃ front, e = front ++ (cmdEncrypt ++ percentEncode s)) ∨
    (∃ front back, e = front ++ (cmdEncrypt ++ (percentEncode s ++ back)) ∧ (∀ c ∈ back, IsBlank c) ∧ back ≠ []) ∨
    ¬ cmdEncrypt <:+: e := by
  obtain ⟨front, start, back, he, hfront, hback, hstart⟩ := canonical_spelling e
  rw [h, List.append_assoc] at he
  have hj : 'j' ∉ front := fun hmem => absurd (hfront _ hmem) (by decide)
  have hcmd : cmdEncrypt = ['j'] ++ devEncrypt := by decide
  -- the `j` is there
  have hwhole (front : Str) (he : e = front ++ (['j'] ++ (devEncrypt ++ (percentEncode s ++ back)))) :
      (∃ front, e = front ++ (cmdEncrypt ++ percentEncode s)) ∨
      ∃ front back, e = front ++ (cmdEncrypt ++ (percentEncode s ++ back)) ∧ (∀ c ∈ back, IsBlank c) ∧ back ≠ [] := by
    rw [← List.append_assoc ['j'], ← hcmd] at he
    by_cases hnil : back = []
    · subst hnil
      exact .inl ⟨front, by rw [he, List.append_nil]⟩
    · exact .inr ⟨front, back, he, hback, hnil⟩
  rcases hstart with rfl | rfl | rfl | rfl
  · refine .inr (.inr ?_)
    rw [he, List.nil_append]
    exact not_infix_of_dev hj hback
  · refine .inr (.inr ?_)
    rw [he, ← List.append_assoc]
    refine not_infix_of_dev ?_ hback
    rw [List.mem_append, not_or]
    exact ⟨hj, by decide⟩
  · rcases hwhole front he with hcase | hcase
    · exact .inl hcase
    · exact .inr (.inl hcase)
  · rcases hwhole (front ++ ['/']) (by rw [he, List.append_assoc]; rfl) with hcase | hcase
    · exact .inl hcase
    · exact .inr (.inl hcase)

theorem cmdEncrypt_within (front rest : Str) : cmdEncrypt <:+: front ++ (cmdEncrypt ++ rest) :=
  (List.prefix_append _ _).isInfix.trans (List.suffix_append _ _).isInfix

/-- What is decoded from a spelling of a text: what the text is decoded to, or nothing,
or the spelling itself. -/
theorem decodeControl_of_spelling (keys : SessionKeys C) {e s : Str}
    (h : canonical e = devEncrypt ++ percentEncode s) :
    decodeControl e keys = decodeControl (cmdEncrypt ++ percentEncode s) keys ∨ decodeControl e keys = none ∨
      decodeControl e keys = some e := by
  rcases spelling_cases h with ⟨front, rfl⟩ | ⟨front, back, rfl, hback, hne⟩ | hdev
  · rw [decodeControl, decodeControl, if_pos (cmdEncrypt_within _ _), if_pos (List.prefix_append _ _).isInfix,
      decryptControlResponse_front]
    exact .inl rfl
  · obtain ⟨err, herr⟩ := decryptControlResponse_blank keys front s hback hne
    rw [decodeControl, if_pos (cmdEncrypt_within _ _), herr]
    exact .inr (.inl rfl)
  · exact .inr (.inr (if_neg hdev))

/-- A text with blanks behind it does not end as the text does. -/
theorem not_suffix_of_blank {front s back : Str} (hback : ∀ c ∈ back, IsBlank c) (hne : back ≠ []) :
    ¬ cmdEncrypt ++ percentEncode s <:+ front ++ (cmdEncrypt ++ (percentEncode s ++ back)) := by
  intro hsuffix
  have hback' : back <:+ front ++ (cmdEncrypt ++ (percentEncode s ++ back)) :=
    (List.suffix_append _ _).trans ((List.suffix_append _ _).trans (List.suffix_append _ _))
  have hwire : cmdEncrypt ++ percentEncode s ≠ [] := List.append_ne_nil_of_left_ne_nil (by decide) _
  have hlast := (hback'.getLast hne).trans (hsuffix.getLast hwire).symm
  exact not_isBlank_of_mem_wire (List.getLast_mem hwire) (hlast ▸ hback _ (List.getLast_mem hne))

/-- Whether decrypting matches a spelling of the text of a command to the command:
if and only if the text stands at its end as it was sent, and the NULs at the end of
the command do not hide blanks of its verb; or the `j` is missing, and the command
has the verb of the text itself. -/
theorem decodeControl_spelling (hC : C.Lawful) (w : World) (keys : SessionKeys C) {st : SaltState} {p : Pos}
    (hr : SaltState.Reachable C w st p) (command : Str) :
    ∃ wire, (st.encrypt w keys p command).1 = .ok wire ∧ ∀ e, canonical e = canonical wire →
      ((∃ plain, decodeControl e keys = some plain ∧ controlMatches plain command = true) ↔
        (wire <:+ e ∧ verb (trimNul command) = verb command) ∨
          (¬ cmdEncrypt <:+: e ∧ verb command = "dev/sys/enc".toList)) := by
  obtain ⟨wire, hwire, hdecode⟩ := decodeControl_encrypt hC w keys hr command
  obtain ⟨cipherText, -, -, henc⟩ := st.encrypt_spec hC.toTotal w keys p command
  have htext : wire = cmdEncrypt ++ percentEncode (b64Encode cipherText) := by
    rw [henc] at hwire
    exact (Except.ok.inj hwire).symm
  refine ⟨wire, hwire, fun e he => ?_⟩
  generalize b64Encode cipherText = s at htext
  subst htext
  rw [canonical_wire] at he
  rcases spelling_cases he with ⟨front, rfl⟩ | ⟨front, back, rfl, hback, hne⟩ | hdev
  · have hplain : decodeControl (front ++ (cmdEncrypt ++ percentEncode s)) keys = some (trimNul command) := by
      rw [← hdecode, decodeControl, decodeControl, if_pos (cmdEncrypt_within _ _),
        if_pos (List.prefix_append _ _).isInfix, decryptControlResponse_front]
    simp [hplain, controlMatches]
  · obtain ⟨err, herr⟩ := decryptControlResponse_blank keys front s hback hne
    have hnone : decodeControl (front ++ (cmdEncrypt ++ (percentEncode s ++ back))) keys = none := by
      rw [decodeControl, if_pos (cmdEncrypt_within _ _), herr]
    simp [hnone, not_suffix_of_blank hback hne]
  · have hplain : decodeControl e keys = some e := if_neg hdev
    have hsuffix : ¬ cmdEncrypt ++ percentEncode s <:+ e := fun h =>
      hdev ((List.prefix_append _ _).isInfix.trans h.isInfix)
    simp [hplain, controlMatches, verb_of_canonical he, hdev, hsuffix, eq_comm]

/-- The spellings of the first command of the sample session. -/
theorem decodeControl_spelling_getkey :
    sampleCrates.Lawful ∧ SaltState.Reachable sampleCrates sampleWorld SaltState.new Pos.start ∧
    ∃ wire, (SaltState.new.encrypt sampleWorld sampleKeys Pos.start sampleCommand).1 = .ok wire ∧
      ∀ e, canonical e = canonical wire →
        ((∃ plain, decodeControl e sampleKeys = some plain ∧ controlMatches plain sampleCommand = true) ↔
          (wire <:+ e ∧ verb (trimNul sampleCommand) = verb sampleCommand) ∨
            (¬ cmdEncrypt <:+: e ∧ verb sampleCommand = "dev/sys/enc".toList)) :=
  ⟨sampleCrates_lawful, .new _,
    decodeControl_spelling sampleCrates_lawful sampleWorld sampleKeys (.new _) sampleCommand⟩

/-- Two spellings of that text which are not: without its `j` it is not decrypted at
all, and with a blank behind it it is no Base64. -/
theorem echo_spelling_rejected :
    ∃ wire, (SaltState.new.encrypt sampleWorld sampleKeys Pos.start sampleCommand).1 = .ok wire ∧
      (canonical wire.tail = canonical wire ∧ decodeControl wire.tail sampleKeys = some wire.tail ∧
        controlMatches wire.tail sampleCommand = false) ∧
      canonical (wire ++ [' ']) = canonical wire ∧ decodeControl (wire ++ [' ']) sampleKeys = none := by
  obtain ⟨cipherText, -, -, henc⟩ :=
    SaltState.new.encrypt_spec sampleCrates_lawful.toTotal sampleWorld sampleKeys Pos.start sampleCommand
  refine ⟨_, congrArg Prod.fst henc, ?_⟩
  generalize b64Encode cipherText = s
  have hdev : (cmdEncrypt ++ percentEncode s).tail = devEncrypt ++ percentEncode s := rfl
  have hcanonical : canonical (devEncrypt ++ percentEncode s) = devEncrypt ++ percentEncode s := by
    have hmem : ∀ c ∈ devEncrypt ++ percentEncode s, ¬ IsBlank c := fun c hc =>
      not_isBlank_of_mem_wire (s := s) (List.mem_of_mem_tail (hdev ▸ hc))
    rw [canonical_eq, trimNul_trim_of_not_isBlank hmem]
    rfl
  have hspace : canonical (cmdEncrypt ++ percentEncode s ++ [' ']) = canonical (cmdEncrypt ++ percentEncode s) := by
    have htrim : trim (cmdEncrypt ++ percentEncode s ++ [' ']) = trim (cmdEncrypt ++ percentEncode s) :=
      List.rdropWhile_concat_pos _ (cmdEncrypt ++ percentEncode s) ' ' (by decide)
    rw [canonical_eq, htrim, ← canonical_eq]
  have hblank : ∀ c ∈ [' '], IsBlank c := by
    rw [List.forall_mem_singleton]
    exact .inl (by decide)
  rw [hdev, hspace, canonical_wire, hcanonical]
  refine ⟨⟨rfl, ?_, ?_⟩, rfl, ?_⟩
  · have hnot := not_infix_of_dev (s := s) (List.not_mem_nil) (List.forall_mem_nil IsBlank)
    rw [List.nil_append, List.append_nil] at hnot
    exact if_neg hnot
  · rw [controlMatches, verb_of_canonical hcanonical]
    decide
  · obtain ⟨err, herr⟩ := decryptControlResponse_blank sampleKeys [] s hblank (List.cons_ne_nil _ _)
    rw [List.nil_append, ← List.append_assoc] at herr
    rw [decodeControl, if_pos ((List.prefix_append _ _).isInfix.trans (List.prefix_append _ _).isInfix), herr]

end Lox
