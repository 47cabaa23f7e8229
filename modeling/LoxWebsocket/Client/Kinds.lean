import LoxWebsocket.Framework.Offsets
import LoxWebsocket.Client.Echo
import LoxWebsocket.Client.Reader

/-!
# Kinds of commands

`Command` has one constructor for each of the client's builders, and `Command.text` is
what the builder makes of its arguments: the path of its kind, and behind a slash the
arguments, which are any text (`text_eq`). `takeSegments` gives what is before the
`n`-th slash (`takeSegments_of_split`), and finds it by an offset in bytes that is never
inside a character (`takeSegmentsChecked_eq`). So the label of a command is the path of
its kind, whatever the arguments are (`cmdLabel_text`), and its verb is that path
without the `j`, however an answer spells the command (`verb_spelling`).
-/

namespace Lox

/-! ## The first segments of a path -/

/-- `takeSegments` as the source has it: the end is an offset in bytes, and the slice up
to it is refused inside a character. -/
def takeSegmentsChecked (s : Str) (n : Nat) : Option Str :=
  let stop := ((s.splitOn '/').take n).zipIdx.foldl
    (fun stop segment => (if segment.2 > 0 then stop + 1 else stop) + (utf8 segment.1).length) 0
  cutRange utf8Len s 0 (min stop (utf8 s).length)

theorem foldl_segments (segments : List Str) {k : Nat} (hk : 0 < k) (stop : Nat) :
    (segments.zipIdx k).foldl
      (fun stop segment => (if segment.2 > 0 then stop + 1 else stop) + (utf8 segment.1).length) stop =
      stop + segments.length + (segments.map (weight utf8Len)).sum := by
  induction segments generalizing k stop with
  | nil => rfl
  | cons s segments ih =>
    rw [List.zipIdx_cons, List.foldl_cons, ih (Nat.succ_pos k), if_pos hk, List.length_cons, List.map_cons,
      List.sum_cons, weight_utf8Len]
    dsimp only
    omega

theorem foldl_segments_zero (segments : List Str) : segments.zipIdx.foldl
      (fun stop segment => (if segment.2 > 0 then stop + 1 else stop) + (utf8 segment.1).length) 0 =
      (segments.map (weight utf8Len)).sum + (segments.length - 1) * utf8Len '/' := by
  have hslash : utf8Len '/' = 1 := rfl
  cases segments with
  | nil => rfl
  | cons s segments =>
    rw [List.zipIdx_cons, List.foldl_cons, foldl_segments _ (Nat.zero_lt_one), if_neg (Nat.lt_irrefl 0),
      List.length_cons, List.map_cons, List.sum_cons, weight_utf8Len, hslash]
    dsimp only
    omega

theorem takeSegments_eq (s : Str) (n : Nat) : takeSegments s n = s.take (segmentsEnd (fun _ => 1) '/' n s) := by
  have hlen : weight (fun _ : Char => 1) = List.length := funext weight_one
  rw [segmentsEnd, hlen, Nat.mul_one]
  exact List.take_eq_take_min.symm

theorem takeSegmentsChecked_eq' (s : Str) (n : Nat) :
    takeSegmentsChecked s n = cutRange utf8Len s 0 (min (segmentsEnd utf8Len '/' n s) (weight utf8Len s)) := by
  rw [takeSegmentsChecked, foldl_segments_zero, weight_utf8Len]
  rfl

theorem takeSegments_of_count_lt {s : Str} {n : Nat} (h : s.count '/' < n) : takeSegments s n = s := by
  rw [takeSegments_eq, segmentsEnd_of_count_lt _ h, weight_one, List.take_length]

theorem takeSegments_of_split (a b : Str) : takeSegments (a ++ '/' :: b) (a.count '/' + 1) = a := by
  rw [takeSegments_eq, segmentsEnd_of_split, weight_one, List.take_left]

/-- A path of as many segments, with nothing or with arguments behind it. -/
theorem takeSegments_path {a m : Str} {n : Nat} (hn : a.count '/' + 1 = n) (hm : m = [] ∨ ∃ r, m = '/' :: r) :
    takeSegments (a ++ m) n = a := by
  subst hn
  rcases hm with rfl | ⟨r, rfl⟩
  · rw [List.append_nil]
    exact takeSegments_of_count_lt (Nat.lt_succ_self _)
  · exact takeSegments_of_split a r

theorem takeSegments_zero (s : Str) : takeSegments s 0 = [] := by
  rw [takeSegments_eq, segmentsEnd, List.take_zero]
  rfl

/-- The end is never inside a character. -/
theorem takeSegmentsChecked_eq (s : Str) (n : Nat) : takeSegmentsChecked s n = some (takeSegments s n) := by
  rw [takeSegmentsChecked_eq']
  have hfront (a b : Str) (h : segmentsEnd utf8Len '/' n (a ++ b) = weight utf8Len a) :
      cutRange utf8Len (a ++ b) 0 (min (segmentsEnd utf8Len '/' n (a ++ b)) (weight utf8Len (a ++ b))) = some a := by
    rw [h, weight_append, Nat.min_eq_left (Nat.le_add_right _ _)]
    have hcut := cutRange_append utf8Len_pos [] a b
    rwa [List.nil_append, weight_nil, Nat.zero_add] at hcut
  by_cases hlt : s.count '/' < n
  · have hall := hfront s []
    rw [List.append_nil] at hall
    rw [takeSegments_of_count_lt hlt, hall (segmentsEnd_of_count_lt _ hlt)]
  · cases n with
    | zero =>
      rw [takeSegments_zero]
      exact hfront [] s (by rw [segmentsEnd, List.take_zero]; rfl)
    | succ n =>
      obtain ⟨a, b, rfl, ha⟩ := exists_split_of_le_count (Nat.succ_pos n) (Nat.le_of_not_lt hlt)
      obtain rfl : a.count '/' = n := Nat.succ.inj ha
      rw [takeSegments_of_split]
      exact hfront a ('/' :: b) (segmentsEnd_of_split _ _ _ _)

/-! ## The commands -/

/-- The client's own builders. -/
inductive CommandKind
  | getKey
  | getKey2
  | getJwt
  | authWithToken
  | refreshJwt
  | checkToken
  | killToken
  | getVisuSalt
  | enableUpdates
  | ioControl
  | securedControl
  deriving DecidableEq

/-- What a command of the kind starts with. -/
def CommandKind.path : CommandKind → Str
  | getKey => "jdev/sys/getkey".toList
  | getKey2 => "jdev/sys/getkey2".toList
  | getJwt => "jdev/sys/getjwt".toList
  | authWithToken => "authwithtoken".toList
  | refreshJwt => "jdev/sys/refreshjwt".toList
  | checkToken => "jdev/sys/checktoken".toList
  | killToken => "jdev/sys/killtoken".toList
  | getVisuSalt => "jdev/sys/getvisusalt".toList
  | enableUpdates => "jdev/sps/enablebinstatusupdate".toList
  | ioControl => "jdev/sps/io".toList
  | securedControl => "jdev/sps/ios".toList

/-- The path with `dev` for `jdev`. -/
def CommandKind.devPath (k : CommandKind) : Str := if k = .authWithToken then k.path else k.path.tail

def CommandKind.segments (k : CommandKind) : Nat := if k = .authWithToken then 1 else 3

/-- A builder and what it is given. -/
inductive Command
  | getKey
  | getKey2 (username : Str)
  | getJwt (credHash username : Str) (permission : TokenPermission) (clientUuid clientInfo : Str)
  | authWithToken (tokenHash username : Str)
  | refreshJwt (tokenHash username : Str)
  | checkToken (tokenHash username : Str)
  | killToken (tokenHash username : Str)
  | getVisuSalt (username : Str)
  | enableUpdates
  | ioControl (uuid value : Str)
  | securedControl (hash uuid value : Str)

namespace Command

def kind : Command → CommandKind
  | getKey => .getKey
  | getKey2 .. => .getKey2
  | getJwt .. => .getJwt
  | authWithToken .. => .authWithToken
  | refreshJwt .. => .refreshJwt
  | checkToken .. => .checkToken
  | killToken .. => .killToken
  | getVisuSalt .. => .getVisuSalt
  | enableUpdates => .enableUpdates
  | ioControl .. => .ioControl
  | securedControl .. => .securedControl

def text : Command → Str
  | getKey => cmdGetKey
  | getKey2 username => cmdGetkey2 username
  | getJwt credHash username permission clientUuid clientInfo =>
    cmdRequestToken credHash username permission clientUuid clientInfo
  | authWithToken tokenHash username => cmdAuthWithToken tokenHash username
  | refreshJwt tokenHash username => cmdRefreshToken tokenHash username
  | checkToken tokenHash username => cmdCheckToken tokenHash username
  | killToken tokenHash username => cmdKillToken tokenHash username
  | getVisuSalt username => cmdGetVisuSalt username
  | enableUpdates => cmdEnableUpdates
  | ioControl uuid value => "jdev/sps/io/".toList ++ uuid ++ "/".toList ++ value
  | securedControl hash uuid value =>
    "jdev/sps/ios/".toList ++ hash ++ "/".toList ++ uuid ++ "/".toList ++ value

/-- What is behind the path: nothing, or a slash and the arguments. -/
def tail : Command → Str
  | getKey => []
  | getKey2 username => '/' :: username
  | getJwt credHash username permission clientUuid clientInfo =>
    '/' :: (credHash ++ "/".toList ++ username ++ "/".toList ++ Error.decimal permission.id ++ "/".toList ++
      clientUuid ++ "/".toList ++ clientInfo)
  | authWithToken tokenHash username => '/' :: (tokenHash ++ "/".toList ++ username)
  | refreshJwt tokenHash username => '/' :: (tokenHash ++ "/".toList ++ username)
  | checkToken tokenHash username => '/' :: (tokenHash ++ "/".toList ++ username)
  | killToken tokenHash username => '/' :: (tokenHash ++ "/".toList ++ username)
  | getVisuSalt username => '/' :: username
  | enableUpdates => []
  | ioControl uuid value => '/' :: (uuid ++ "/".toList ++ value)
  | securedControl hash uuid value => '/' :: (hash ++ "/".toList ++ uuid ++ "/".toList ++ value)

/-- The constants of the builders end with the slash. -/
theorem tag_append {tag p : Str} (h : tag = p ++ ['/']) (args : Str) : tag ++ args = p ++ '/' :: args := by
  rw [h, List.append_assoc, List.singleton_append]

theorem text_eq (c : Command) : c.text = c.kind.path ++ c.tail := by
  cases c with
  | getKey2 username => exact tag_append (p := CommandKind.getKey2.path) (by decide) username
  | getVisuSalt username => exact tag_append (p := CommandKind.getVisuSalt.path) (by decide) username
  | _ => rfl

theorem tail_cases (c : Command) : c.tail = [] ∨ ∃ r, c.tail = '/' :: r := by
  cases c <;> first | exact .inl rfl | exact .inr ⟨_, rfl⟩

/-- A secured control that an answer releases. -/
theorem securedCmd_eq {P : Parsers} {keySalt : KeySalt} {item : VisuPending} {cmd : Str}
    (h : securedCmd P keySalt item = some cmd) : ∃ hash, cmd = (securedControl hash item.uuid item.value).text := by
  rw [securedCmd] at h
  split at h
  · rename_i hash _
    exact ⟨hash, (Option.some.inj h).symm⟩
  · cases h

end Command

namespace CommandKind

theorem count_path (k : CommandKind) : k.path.count '/' + 1 = k.segments := by cases k <;> decide

theorem count_devPath (k : CommandKind) : k.devPath.count '/' + 1 = k.segments := by cases k <;> decide

/-- The length and the last letter tell the paths apart. -/
theorem devPath_injective : Function.Injective devPath := by
  have hshape (k : CommandKind) : (k.devPath.length, k.devPath.getLast?) =
      match k with
      | getKey => (14, some 'y')
      | getKey2 => (15, some '2')
      | getJwt => (14, some 't')
      | authWithToken => (13, some 'n')
      | refreshJwt => (18, some 't')
      | checkToken => (18, some 'n')
      | killToken => (17, some 'n')
      | getVisuSalt => (19, some 't')
      | enableUpdates => (29, some 'e')
      | ioControl => (10, some 'o')
      | securedControl => (11, some 's') := by
    cases k <;> rfl
  intro j k h
  have heq : (j.devPath.length, j.devPath.getLast?) = (k.devPath.length, k.devPath.getLast?) := by rw [h]
  rw [hshape, hshape] at heq
  cases j <;> cases k <;> first | rfl | exact absurd heq (by decide)

theorem labelSegments (k : CommandKind) (m : Str) :
    (if "jdev/".toList.isPrefixOf (k.path ++ m) || "dev/".toList.isPrefixOf (k.path ++ m) then 3 else 1) =
      k.segments := by
  cases k <;> rfl

theorem verbSegments (k : CommandKind) (m : Str) :
    (if "dev/".toList.isPrefixOf (k.devPath ++ m) then 3 else 1) = k.segments := by
  cases k <;> rfl

end CommandKind

/-! ## Labels -/

theorem cmdLabel_text (c : Command) : cmdLabel c.text = c.kind.path := by
  rw [cmdLabel, c.text_eq, CommandKind.labelSegments]
  exact takeSegments_path c.kind.count_path c.tail_cases

/-- The label of a command is the path of its builder, so two commands of one builder
have the same label whatever their arguments are. `takeSegments` gives what is in front
of the `n`-th slash, or everything if there are fewer, and the source's slice of the
bytes is the same text, cut between two characters. -/
theorem cmdLabel_hides_arguments :
    (∀ c d : Command, c.kind = d.kind → cmdLabel c.text = cmdLabel d.text) ∧
    (∀ c : Command, cmdLabel c.text = c.kind.path) ∧
    (∀ (P : Parsers) (keySalt : KeySalt) (item : VisuPending) (cmd : Str), securedCmd P keySalt item = some cmd →
      cmdLabel cmd = CommandKind.securedControl.path) ∧
    (∀ (s : Str) (n : Nat), takeSegmentsChecked s n = some (takeSegments s n)) ∧
    (∀ (s : Str) (n : Nat), 0 < n → n ≤ s.count '/' →
      ∃ rest, s = takeSegments s n ++ '/' :: rest ∧ (takeSegments s n).count '/' + 1 = n) ∧
    (∀ (s : Str) (n : Nat), s.count '/' < n → takeSegments s n = s) ∧
    ∀ s : Str, takeSegments s 0 = [] := by
  refine ⟨fun c d h => ?_, cmdLabel_text, fun P keySalt item cmd h => ?_, takeSegmentsChecked_eq,
    fun s n hpos hle => ?_, fun s n h => takeSegments_of_count_lt h, takeSegments_zero⟩
  · rw [cmdLabel_text, cmdLabel_text, h]
  · obtain ⟨hash, rfl⟩ := Command.securedCmd_eq h
    exact cmdLabel_text _
  · obtain ⟨a, b, rfl, rfl⟩ := exists_split_of_le_count hpos hle
    rw [takeSegments_of_split]
    exact ⟨b, rfl, rfl⟩

theorem cmdLabel_hides_arguments_umlaut :
    cmdLabel (Command.killToken "ä/b".toList []).text = cmdLabel (Command.killToken [] "//".toList).text ∧
    takeSegments "ä/b".toList 2 = "ä/b".toList :=
  ⟨cmdLabel_hides_arguments.1 _ _ rfl, cmdLabel_hides_arguments.2.2.2.2.2.1 _ _ (by decide)⟩

/-! ## Verbs -/

/-- What is left of what stands behind a command. -/
def stripBack (m : Str) : Str := trimNul (m.rdropWhile isWhiteSpace)

theorem stripBack_cons {x : Char} (hx : ¬ IsBlank x) (m : Str) : stripBack (x :: m) = x :: stripBack m := by
  rw [IsBlank, not_or, Bool.not_eq_true] at hx
  have hwhite := rdropWhile_append_cons hx.1 [] m
  rw [List.nil_append] at hwhite
  rw [stripBack, hwhite]
  exact trimNul_append hx.2 [] _

/-- Blanks around a text that ends in something else. -/
theorem trimNul_trim_append {front l m : Str} {x : Char} (hfront : ∀ c ∈ front, isWhiteSpace c = true)
    (hl : ∀ c ∈ l, ¬ IsBlank c) (hx : ¬ IsBlank x) :
    trimNul (trim (front ++ (l ++ x :: m))) = l ++ x :: stripBack m := by
  have hhead : ∀ c ∈ (l ++ [x]).head?, isWhiteSpace c = false := by
    intro c hc
    have hblank : ¬ IsBlank c := by
      rcases List.mem_append.mp (List.mem_of_mem_head? hc) with h | h
      · exact hl c h
      · exact List.mem_singleton.mp h ▸ hx
    exact Bool.eq_false_iff.mpr fun hwhite => hblank (.inl hwhite)
  rw [IsBlank, not_or, Bool.not_eq_true] at hx
  rw [trim_append hfront hhead hx.1, trimNul_append hx.2, stripBack]

theorem stripBack_eq_nil_iff {back : Str} : stripBack back = [] ↔ ∃ nuls white, back = nuls ++ white ∧
    (∀ x ∈ nuls, x = '\x00') ∧ ∀ x ∈ white, isWhiteSpace x = true := by
  constructor
  · intro h
    refine ⟨back.rdropWhile isWhiteSpace, back.rtakeWhile isWhiteSpace, List.rdropWhile_append_rtakeWhile.symm, ?_,
      fun x hx => List.mem_rtakeWhile_imp hx⟩
    intro x hx
    rw [stripBack, trimNul, List.rdropWhile_eq_nil_iff] at h
    exact beq_iff_eq.mp (h x hx)
  · rintro ⟨nuls, white, rfl, hnuls, hwhite⟩
    have hdrop : (nuls ++ white).rdropWhile isWhiteSpace = nuls := by
      induction white using List.reverseRecOn with
      | nil =>
        rw [List.append_nil, List.rdropWhile_eq_self_iff]
        intro hne hlast
        rw [hnuls _ (List.getLast_mem hne)] at hlast
        exact absurd hlast (by decide)
      | append_singleton white y ih =>
        rw [← List.append_assoc, List.rdropWhile_concat_pos _ _ _ (hwhite y (by simp))]
        exact ih fun x hx => hwhite x (List.mem_append_left _ hx)
    rw [stripBack, hdrop, trimNul, List.rdropWhile_eq_nil_iff]
    exact fun x hx => beq_iff_eq.mpr (hnuls x hx)

namespace CommandKind

theorem not_isBlank_of_mem_path {k : CommandKind} {x : Char} (h : x ∈ k.path) : ¬ IsBlank x :=
  not_isBlank_of_all (by cases k <;> decide) h

theorem not_isBlank_of_mem_devPath {k : CommandKind} {x : Char} (h : x ∈ k.devPath) : ¬ IsBlank x :=
  not_isBlank_of_all (l := k.devPath) (by cases k <;> decide) h

/-- The slash and the `j` in front of a path are peeled off. -/
theorem peel_path (k : CommandKind) {start p : Str} (hstart : start = [] ∨ start = ['/'])
    (hp : p = k.path ∨ p = k.devPath) (m : Str) :
    ((['j'].isPrefixOf? ((['/'].isPrefixOf? (start ++ (p ++ m))).getD (start ++ (p ++ m)))).filter
      fun rest => "dev/".toList.isPrefixOf rest).getD ((['/'].isPrefixOf? (start ++ (p ++ m))).getD
        (start ++ (p ++ m))) = k.devPath ++ m := by
  rcases hstart with rfl | rfl <;> rcases hp with rfl | rfl <;> cases k <;> rfl

theorem canonical_path (k : CommandKind) {front start p : Str} (hfront : ∀ c ∈ front, isWhiteSpace c = true)
    (hstart : start = [] ∨ start = ['/']) (hp : p = k.path ∨ p = k.devPath) (m : Str) :
    canonical (front ++ (start ++ (p ++ m))) = k.devPath ++ stripBack m := by
  have hblank : ∀ c ∈ p, ¬ IsBlank c := by
    rcases hp with rfl | rfl
    · exact fun c => not_isBlank_of_mem_path
    · exact fun c => not_isBlank_of_mem_devPath
  have hslash : ∀ c ∈ start, ¬ IsBlank c := by
    rcases hstart with rfl | rfl
    · exact List.forall_mem_nil _
    · exact fun c => not_isBlank_of_all (l := ['/']) (by decide)
  have hne : p ≠ [] := by rcases hp with rfl | rfl <;> cases k <;> decide
  obtain ⟨l, x, hlast⟩ : ∃ l x, p = l ++ [x] := ⟨_, _, (List.dropLast_append_getLast hne).symm⟩
  have htext : start ++ (p ++ m) = (start ++ l) ++ x :: m := by rw [hlast]; simp
  have hstrip : trimNul (trim (front ++ (start ++ (p ++ m)))) = start ++ (p ++ stripBack m) := by
    rw [htext, trimNul_trim_append hfront]
    · rw [hlast]; simp
    · intro c hc
      rcases List.mem_append.mp hc with hc | hc
      · exact hslash c hc
      · exact hblank c (hlast ▸ List.mem_append_left _ hc)
    · exact hblank x (by rw [hlast]; simp)
  rw [canonical_eq, hstrip, peel_path k hstart hp]

/-- The verb of a path, with what is left of what stands behind it. -/
theorem verb_path (k : CommandKind) {front start p : Str} (hfront : ∀ c ∈ front, isWhiteSpace c = true)
    (hstart : start = [] ∨ start = ['/']) (hp : p = k.path ∨ p = k.devPath) (m : Str) :
    verb (front ++ (start ++ (p ++ m))) = takeSegments (k.devPath ++ stripBack m) k.segments := by
  rw [verb, canonical_path k hfront hstart hp, verbSegments]

end CommandKind

namespace Command

/-- A spelling of a command: behind whitespace and a slash, with `dev` for `jdev`, and
with the blanks `back` behind it. -/
structure Respelt (c : Command) (back e : Str) : Prop where
  spelt : ∃ front start p, e = front ++ (start ++ (p ++ (c.tail ++ back))) ∧ (∀ x ∈ front, isWhiteSpace x = true) ∧
    (start = [] ∨ start = ['/']) ∧ (p = c.kind.path ∨ p = c.kind.devPath)
  blank : ∀ x ∈ back, IsBlank x

theorem respelt_self (c : Command) : c.Respelt [] c.text :=
  ⟨⟨[], [], c.kind.path, by rw [List.append_nil]; exact c.text_eq, List.forall_mem_nil _, .inl rfl, .inl rfl⟩,
    List.forall_mem_nil _⟩

/-- What is left behind the verb: only a command without arguments ends there. -/
def leftover (c : Command) (back : Str) : Str := if c.tail = [] then stripBack back else []

theorem leftover_eq_nil_iff {c : Command} {back : Str} : c.leftover back = [] ↔ c.tail ≠ [] ∨
    ∃ nuls white, back = nuls ++ white ∧ (∀ x ∈ nuls, x = '\x00') ∧ ∀ x ∈ white, isWhiteSpace x = true := by
  by_cases htail : c.tail = []
  · rw [leftover, if_pos htail, stripBack_eq_nil_iff]
    exact ⟨.inr, fun h => h.resolve_left fun hne => hne htail⟩
  · rw [leftover, if_neg htail]
    exact iff_of_true rfl (.inl htail)

theorem isBlank_of_mem_leftover {c : Command} {back : Str} (hback : ∀ x ∈ back, IsBlank x) {x : Char}
    (h : x ∈ c.leftover back) : IsBlank x := by
  rw [leftover] at h
  split_ifs at h with htail
  · have hsub : stripBack back <+: back := (List.rdropWhile_prefix _ _).trans (List.rdropWhile_prefix _ _)
    exact hback x (hsub.subset h)
  · cases h

theorem verb_spelling {c : Command} {back e : Str} (h : c.Respelt back e) :
    verb e = c.kind.devPath ++ c.leftover back := by
  obtain ⟨⟨front, start, p, rfl, hfront, hstart, hp⟩, hback⟩ := h
  rw [c.kind.verb_path hfront hstart hp]
  rcases c.tail_cases with htail | ⟨r, htail⟩
  · have hleft : c.leftover back = stripBack back := if_pos htail
    have hslash : '/' ∉ stripBack back := fun hmem =>
      not_isBlank_of_all (l := ['/']) (by decide) List.mem_cons_self (isBlank_of_mem_leftover hback (hleft ▸ hmem))
    rw [htail, List.nil_append, hleft]
    refine takeSegments_of_count_lt ?_
    rw [List.count_append, List.count_eq_zero_of_not_mem hslash, ← c.kind.count_devPath]
    exact Nat.lt_succ_self _
  · have hleft : c.leftover back = [] := if_neg (by rw [htail]; exact List.cons_ne_nil _ _)
    rw [htail, hleft, List.append_nil, List.cons_append,
      stripBack_cons (not_isBlank_of_all (l := ['/']) (by decide) List.mem_cons_self)]
    exact takeSegments_path c.kind.count_devPath (.inr ⟨_, rfl⟩)

theorem verb_text (c : Command) : verb c.text = c.kind.devPath := by
  have hleft : c.leftover [] = [] := leftover_eq_nil_iff.mpr (.inr ⟨[], [], rfl, by simp, by simp⟩)
  rw [verb_spelling c.respelt_self, hleft, List.append_nil]

/-- A spelling of one command matches another if they are of one kind and nothing is
left behind the verb. -/
theorem controlMatches_spelling {c d : Command} {back e : Str} (h : c.Respelt back e) :
    controlMatches e d.text = true ↔ c.kind = d.kind ∧ c.leftover back = [] := by
  rw [controlMatches, decide_eq_true_eq, verb_spelling h, verb_text]
  constructor
  · intro heq
    have hleft : c.leftover back = [] := by
      rw [List.eq_nil_iff_forall_not_mem]
      intro x hx
      refine CommandKind.not_isBlank_of_mem_devPath (k := d.kind) ?_ (isBlank_of_mem_leftover h.blank hx)
      rw [← heq]
      exact List.mem_append_right _ hx
    rw [hleft, List.append_nil] at heq
    exact ⟨CommandKind.devPath_injective heq, hleft⟩
  · rintro ⟨hkind, hleft⟩
    rw [hkind, hleft, List.append_nil]

/-- The text a command is decrypted to has its verb. -/
theorem verb_trimNul_text (c : Command) : verb (trimNul c.text) = c.kind.devPath := by
  have hne : c.kind.path ≠ [] := by cases c.kind <;> decide
  obtain ⟨l, x, hlast⟩ : ∃ l x, c.kind.path = l ++ [x] := ⟨_, _, (List.dropLast_append_getLast hne).symm⟩
  have hx : ¬ IsBlank x := CommandKind.not_isBlank_of_mem_path (k := c.kind) (by rw [hlast]; simp)
  have htrim : trimNul c.text = [] ++ ([] ++ (c.kind.path ++ trimNul c.tail)) := by
    rw [c.text_eq, hlast, List.nil_append, List.nil_append, List.append_assoc, List.append_assoc]
    exact trimNul_append (fun h => hx (.inr h)) l c.tail
  rw [htrim, c.kind.verb_path (List.forall_mem_nil _) (.inl rfl) (.inl rfl)]
  refine takeSegments_path c.kind.count_devPath ?_
  rcases c.tail_cases with htail | ⟨r, htail⟩
  · rw [htail]
    exact .inl rfl
  · have hslash : ¬ IsBlank '/' := not_isBlank_of_all (l := ['/']) (by decide) List.mem_cons_self
    have hnul : trimNul ('/' :: r) = '/' :: trimNul r := trimNul_append (by decide) [] r
    rw [htail, hnul, stripBack_cons hslash]
    exact .inr ⟨_, rfl⟩

end Command

/-! ## Answers to another kind -/

section

variable {C : Crates}

/-- A waiter for a command, which was sent as it is or encrypted. -/
structure WaitsFor (w : World) (keys : SessionKeys C) (entry : PendingEntry) (d : Command) : Prop where
  plaintext : entry.plaintextCmd = d.text
  wire : entry.wireCmd = d.text ∨
    ∃ st p, SaltState.Reachable C w st p ∧ (st.encrypt w keys p d.text).1 = .ok entry.wireCmd

/-- A text that is taken for an encrypted one, and decrypted to a command with the verb
of the kind. -/
def CarriesEcho (keys : SessionKeys C) (e : Str) (k : CommandKind) : Prop :=
  cmdEncrypt <:+: e ∧ ∃ plain, keys.decryptControlResponse e = .ok plain ∧ verb (stripSaltPrefix plain) = k.devPath

theorem resolve_matched {q : PendingQueue} {entry : PendingEntry} {rest : List PendingEntry}
    (h : q.entries = entry :: rest) (e : Str) (keys : SessionKeys C) :
    (q.resolve (some e) keys).1.map Resolved.matched = some (decide (canonical e = canonical entry.wireCmd) ||
      (decodeControl e keys).any fun plain => controlMatches plain entry.plaintextCmd) := by
  rw [PendingQueue.resolve, h]
  by_cases hwire : canonical e = canonical entry.wireCmd
  · simp [hwire]
  · simp [hwire]

theorem wire_of_encrypt (hC : C.Lawful) {w : World} {keys : SessionKeys C} {st : SaltState} {p : Pos}
    (hr : SaltState.Reachable C w st p) {command wire : Str} (h : (st.encrypt w keys p command).1 = .ok wire) :
    ∃ s, wire = cmdEncrypt ++ percentEncode s ∧ decodeControl wire keys = some (trimNul command) := by
  obtain ⟨cipherText, -, -, henc⟩ := st.encrypt_spec hC.toTotal w keys p command
  obtain ⟨text, htext, hdecode⟩ := decodeControl_encrypt hC w keys hr command
  rw [h] at htext
  obtain rfl := Except.ok.inj htext
  rw [henc] at h
  exact ⟨b64Encode cipherText, (Except.ok.inj h).symm, hdecode⟩

theorem devPath_append_ne_enc (k : CommandKind) (m : Str) : k.devPath ++ m ≠ "dev/sys/enc".toList := by
  intro h
  have hpre : k.devPath <+: "dev/sys/enc".toList := h ▸ List.prefix_append _ _
  rw [← List.isPrefixOf_iff_prefix] at hpre
  revert hpre
  cases k <;> decide

theorem verb_congr {a b : Str} (h : canonical a = canonical b) : verb a = verb b := by
  rw [verb, verb, h]

/-- A command of one kind, as it is, is not what a waiter of another kind was sent as. -/
theorem WaitsFor.canonical_ne (hC : C.Lawful) {w : World} {keys : SessionKeys C} {entry : PendingEntry}
    {c d : Command} (hwait : WaitsFor w keys entry d) (hkind : c.kind ≠ d.kind) {back e : Str}
    (he : c.Respelt back e) : canonical e ≠ canonical entry.wireCmd := by
  intro heq
  have hverb := verb_congr heq
  rcases hwait.wire with hwire | ⟨st, p, hr, hwire⟩
  · have hmatch : controlMatches e d.text = true := by rw [controlMatches, decide_eq_true_eq, hverb, hwire]
    exact hkind ((Command.controlMatches_spelling he).mp hmatch).1
  · obtain ⟨s, hs, -⟩ := wire_of_encrypt hC hr hwire
    rw [hs, verb_of_canonical (canonical_wire s), Command.verb_spelling he] at hverb
    exact devPath_append_ne_enc _ _ hverb

theorem resolve_plain (hC : C.Lawful) {w : World} {keys : SessionKeys C} {q : PendingQueue} {entry : PendingEntry}
    {rest : List PendingEntry} (hq : q.entries = entry :: rest) {c d : Command} (hwait : WaitsFor w keys entry d)
    (hkind : c.kind ≠ d.kind) {back e : Str} (he : c.Respelt back e) :
    (q.resolve (some e) keys).1.map Resolved.matched = some false ↔ ¬ CarriesEcho keys e d.kind := by
  rw [resolve_matched hq, decide_eq_false (hwait.canonical_ne hC hkind he), Bool.false_or, Option.some.injEq,
    hwait.plaintext]
  by_cases hwithin : cmdEncrypt <:+: e
  · rw [decodeControl, if_pos hwithin]
    cases hplain : keys.decryptControlResponse e with
    | error err => simp [CarriesEcho, hplain]
    | ok plain => simp [CarriesEcho, hplain, hwithin, controlMatches, Command.verb_text]
  · have hno : controlMatches e d.text = false := by
      rw [Bool.eq_false_iff]
      exact fun hmatch => hkind ((Command.controlMatches_spelling he).mp hmatch).1
    rw [decodeControl, if_neg hwithin]
    simp [CarriesEcho, hwithin, hno]

theorem percentEncode_injective : Function.Injective percentEncode := by
  intro s t h
  have hdecode := congrArg (fun u => percentDecode (utf8 u)) h
  simp only [percentDecode_encode] at hdecode
  exact utf8_injective hdecode

/-- An encrypted command of one kind does not match a waiter of another. -/
theorem resolve_encrypted (hC : C.Lawful) {w : World} {keys : SessionKeys C} {q : PendingQueue} {entry : PendingEntry}
    {rest : List PendingEntry} (hq : q.entries = entry :: rest) {c d : Command} (hwait : WaitsFor w keys entry d)
    (hkind : c.kind ≠ d.kind) {st : SaltState} {p : Pos} (hr : SaltState.Reachable C w st p) {wire e : Str}
    (hwire : (st.encrypt w keys p c.text).1 = .ok wire) (he : canonical e = canonical wire) :
    (q.resolve (some e) keys).1.map Resolved.matched = some false := by
  obtain ⟨s, rfl, hdecode⟩ := wire_of_encrypt hC hr hwire
  rw [canonical_wire] at he
  have hverb := verb_of_canonical he
  have hsent : canonical e ≠ canonical entry.wireCmd := by
    intro heq
    rcases hwait.wire with hplain | ⟨st', p', hr', hwire'⟩
    · have htext := verb_congr heq
      rw [hplain, hverb, Command.verb_text] at htext
      exact devPath_append_ne_enc d.kind [] (by rw [List.append_nil]; exact htext.symm)
    · obtain ⟨s', hs', hdecode'⟩ := wire_of_encrypt hC hr' hwire'
      rw [he, hs', canonical_wire] at heq
      have hsame := percentEncode_injective (List.append_cancel_left heq)
      rw [hs', ← hsame, hdecode] at hdecode'
      have hkinds := congrArg verb (Option.some.inj hdecode')
      rw [Command.verb_trimNul_text, Command.verb_trimNul_text] at hkinds
      exact hkind (CommandKind.devPath_injective hkinds)
  have hno : ((decodeControl e keys).any fun plain => controlMatches plain entry.plaintextCmd) = false := by
    rw [hwait.plaintext]
    rcases decodeControl_of_spelling keys he with h | h | h
    · rw [h, hdecode, Option.any_some, controlMatches, Command.verb_trimNul_text, Command.verb_text]
      exact decide_eq_false fun heq => hkind (CommandKind.devPath_injective heq)
    · rw [h, Option.any_none]
    · rw [h, Option.any_some, controlMatches, hverb, Command.verb_text]
      refine decide_eq_false fun heq => devPath_append_ne_enc d.kind [] ?_
      rw [List.append_nil, heq]
  rw [resolve_matched hq, decide_eq_false hsent, hno]
  rfl

/-- A user name that is the encrypted text of a command is taken for that command. -/
theorem resolve_carried (hC : C.Lawful) {w : World} {keys : SessionKeys C} {st : SaltState} {p : Pos}
    (hr : SaltState.Reachable C w st p) {d : Command} {wire : Str} (hwire : (st.encrypt w keys p d.text).1 = .ok wire)
    {q : PendingQueue} {entry : PendingEntry} {rest : List PendingEntry} (hq : q.entries = entry :: rest)
    (hentry : entry.plaintextCmd = d.text) :
    (q.resolve (some (Command.getKey2 wire).text) keys).1.map Resolved.matched = some true := by
  obtain ⟨s, rfl, hdecode⟩ := wire_of_encrypt hC hr hwire
  have hecho : decodeControl (Command.getKey2 (cmdEncrypt ++ percentEncode s)).text keys = some (trimNul d.text) := by
    have hname : cmdEncrypt <:+: cmdGetKeyAndSalt ++ (cmdEncrypt ++ percentEncode s) := cmdEncrypt_within _ _
    have hwire : cmdEncrypt <:+: cmdEncrypt ++ percentEncode s := (List.prefix_append _ _).isInfix
    have htext : (Command.getKey2 (cmdEncrypt ++ percentEncode s)).text =
      cmdGetKeyAndSalt ++ (cmdEncrypt ++ percentEncode s) := rfl
    rw [htext, ← hdecode, decodeControl, decodeControl, if_pos hname, if_pos hwire, decryptControlResponse_front]
  rw [resolve_matched hq, hecho, Option.any_some, controlMatches, Command.verb_trimNul_text, hentry, Command.verb_text,
    decide_eq_true (Eq.refl _), Bool.or_true]

/-- Whether the check tells the kinds of commands apart. A spelling of a command matches
the commands of its kind and no others, if it has arguments or no whitespace stands
before NULs behind it. An encrypted command, however its text is spelt, is reported as a
mismatch to a waiter of another kind; one that is echoed as it is, if the echo does not
itself carry the encrypted text of a command with the verb of that waiter. -/
theorem controlMatches_separates_kinds (hC : C.Lawful) (w : World) (keys : SessionKeys C) :
    (∀ (c d : Command) (back e : Str), c.Respelt back e →
      ((controlMatches e d.text = true ↔ c.kind = d.kind) ↔ (c.kind = d.kind → c.tail ≠ [] ∨
        ∃ nuls white, back = nuls ++ white ∧ (∀ x ∈ nuls, x = '\x00') ∧ ∀ x ∈ white, isWhiteSpace x = true))) ∧
    ∀ (c d : Command) (q : PendingQueue) (entry : PendingEntry) (rest : List PendingEntry), c.kind ≠ d.kind →
      q.entries = entry :: rest → WaitsFor w keys entry d →
      (∀ back e, c.Respelt back e →
        ((q.resolve (some e) keys).1.map Resolved.matched = some false ↔ ¬ CarriesEcho keys e d.kind)) ∧
      ∀ st p wire e, SaltState.Reachable C w st p → (st.encrypt w keys p c.text).1 = .ok wire →
        canonical e = canonical wire → (q.resolve (some e) keys).1.map Resolved.matched = some false := by
  refine ⟨fun c d back e he => ?_, fun c d q entry rest hkind hq hwait => ⟨fun back e he => ?_,
    fun st p wire e hr hwire he => resolve_encrypted hC hq hwait hkind hr hwire he⟩⟩
  · rw [Command.controlMatches_spelling he, Command.leftover_eq_nil_iff, and_iff_left_iff_imp]
  · exact resolve_plain hC hq hwait hkind he

theorem controlMatches_separates_kinds_getkey :
    controlMatches " /dev/sys/getkey\x00 ".toList Command.getKey.text = true ∧
    ∃ wire, (SaltState.new.encrypt sampleWorld sampleKeys Pos.start Command.getKey.text).1 = .ok wire ∧
      ((PendingQueue.new.push Command.enableUpdates.text Command.enableUpdates.text none 0).resolve (some wire)
        sampleKeys).1.map Resolved.matched = some false := by
  have hseparates := controlMatches_separates_kinds sampleCrates_lawful sampleWorld sampleKeys
  refine ⟨?_, ?_⟩
  · have hblank : ∀ x ∈ [' '], isWhiteSpace x = true := List.forall_mem_singleton.mpr (by decide)
    have hnul : ∀ x ∈ ['\x00'], x = '\x00' := List.forall_mem_singleton.mpr rfl
    have hspelt : Command.getKey.Respelt ['\x00', ' '] " /dev/sys/getkey\x00 ".toList :=
      ⟨⟨[' '], ['/'], _, by decide, hblank, .inr rfl, .inr rfl⟩,
        List.forall_mem_cons.mpr ⟨.inr rfl, fun x hx => .inl (hblank x hx)⟩⟩
    exact ((hseparates.1 .getKey .getKey _ _ hspelt).mpr fun _ => .inr ⟨['\x00'], [' '], rfl, hnul, hblank⟩).mpr rfl
  · obtain ⟨wire, hwire, -⟩ := decodeControl_encrypt sampleCrates_lawful sampleWorld sampleKeys (.new Pos.start)
      Command.getKey.text
    exact ⟨wire, hwire, (hseparates.2 .getKey .enableUpdates _ _ [] (by decide) rfl ⟨rfl, .inl rfl⟩).2 _ _ _ _
      (.new _) hwire rfl⟩

/-- Two spellings that the check gets wrong: a blank before a NUL is left behind the
verb, and a user name that is the encrypted text of the waiter's command makes the
answer to `getkey2` match that waiter. -/
theorem kinds_confused :
    controlMatches "jdev/sys/getkey \x00".toList Command.getKey.text = false ∧
    ∃ wire, (SaltState.new.encrypt sampleWorld sampleKeys Pos.start Command.getKey.text).1 = .ok wire ∧
      ((PendingQueue.new.push Command.getKey.text wire none 0).resolve (some (Command.getKey2 wire).text)
        sampleKeys).1.map Resolved.matched = some true := by
  refine ⟨by decide, ?_⟩
  obtain ⟨wire, hwire, -⟩ := decodeControl_encrypt sampleCrates_lawful sampleWorld sampleKeys (.new Pos.start)
    Command.getKey.text
  exact ⟨wire, hwire, resolve_carried sampleCrates_lawful (.new _) hwire rfl rfl⟩

end

end Lox
