import LoxWebsocket.Auth.StoreHistory

/-!
# Interrupted saves

A save may stop at any of its steps, by an error or by a crash, also in the
middle of the write. What is read afterwards is what was read before or the new
record, if the file that is written is another one than the record's
(`save_intact_iff`): the name of the one is that of the other with the extension
`tmp`, so the two are the same for a record whose name has it already.
-/

namespace Lox

namespace FileTokenStore

/-- What is read after a save, however far it got, is what was read before it, or
the new record in full. -/
def Intact (path : Path) (binding : Str) (token : LxToken) (disk : Disk Path) : Prop :=
  readRecord ⟨path, (writeRecord path binding token disk).2⟩ = readRecord ⟨path, disk⟩ ∨
    readRecord ⟨path, (writeRecord path binding token disk).2⟩ = parseRecord (recordText binding token) ∧
      (NoBreak binding → token.isEmpty = false →
        readRecord ⟨path, (writeRecord path binding token disk).2⟩ = some (binding, token))

theorem createParent_untouched (path q : Path) : (createParent path).Keeps (Disk.Untouched q) := by
  unfold createParent
  split
  · exact Disk.createDir_untouched q
  · exact Prog.keeps_pure _

/-- A path that is not that of a file has nothing to read. -/
theorem readRecord_of_not_names {path : Path} (h : ¬ FilePaths.names path = true) (disk : Disk Path) :
    readRecord ⟨path, disk⟩ = none := by
  have hread : disk.read path = .error .other := if_neg h
  rw [readRecord, hread]

/-- By way of another file, a save leaves the record intact. -/
theorem intact_of_ne {path : Path} (h : FilePaths.names path = true → path.withExtension tmpExtension ≠ path)
    (binding : Str) (token : LxToken) (disk : Disk Path) : Intact path binding token disk := by
  by_cases hnames : FilePaths.names path = true
  swap
  · exact .inl ((readRecord_of_not_names hnames _).trans (readRecord_of_not_names hnames _).symm)
  by_cases htoken : NoBreak token.token
  swap
  · rw [Intact, writeRecord_refused htoken]
    exact .inl rfl
  have hfile : (writeRecord path binding token disk).2.files path = disk.files path ∨
      (writeRecord path binding token disk).2.files path = some (utf8 (recordText binding token)) := by
    have hparent := createParent_untouched path path disk
    rw [writeRecord_eq path htoken]
    rcases hrun : createParent path disk with ⟨_ | _, d₁⟩
    · rw [hrun] at hparent
      rw [Prog.bind_error hrun]
      exact .inl hparent
    · rw [hrun] at hparent
      rw [Prog.bind_ok hrun]
      have hreplace := Disk.replace_intact (h hnames).symm (utf8 (recordText binding token)) d₁
      rwa [show d₁.files path = disk.files path from hparent] at hreplace
  rcases hfile with hsame | hnew
  · exact .inl (readRecord_congr hsame)
  · have hread := readRecord_file hnames hnew
    rw [fromUtf8_utf8, Option.bind_some] at hread
    exact .inr ⟨hread, fun hbinding hne => hread.trans (parseRecord_recordText hbinding htoken hne)⟩

/-- The faults of a save that ends with the removal of the old file. -/
def crashAfterRemove (path : Path) : List (Option Fault) :=
  match path.parent.filter fun parent => !parent.components.isEmpty with
  | some _ => [none, some ⟨1, true⟩]
  | none => [some ⟨1, true⟩]

/-- A save over its own file that ends with the removal. -/
theorem writeRecord_over_itself {path : Path} (hsame : path.withExtension tmpExtension = path)
    (hnames : FilePaths.names path = true) {token : LxToken} (htoken : NoBreak token.token) (binding : Str)
    {files : Path → Option Bytes} {content : Bytes} (hfile : files path = some content) :
    (writeRecord path binding token ⟨files, crashAfterRemove path, false⟩).2.files path = none := by
  have hparent : createParent path ⟨files, crashAfterRemove path, false⟩ =
      (.ok (), ⟨files, [some ⟨1, true⟩], false⟩) := by
    cases hparent : path.parent.filter fun parent => !parent.components.isEmpty with
    | none =>
      simp only [createParent, crashAfterRemove, hparent]
      rfl
    | some parent =>
      simp only [createParent, crashAfterRemove, hparent]
      rfl
  have hread : Disk.read (⟨files, [some ⟨1, true⟩], false⟩ : Disk Path) path = .ok content :=
    Disk.read_eq_ok.mpr ⟨hnames, hfile⟩
  have hremove : Disk.remove path ⟨files, [some ⟨1, true⟩], false⟩ =
      (.error .other, ⟨Function.update files path none, [], true⟩) := by
    rw [Disk.remove, hread]
    rfl
  have hattempt : ((Disk.remove path).attempt : Io Path (Except IoError Unit)) ⟨files, [some ⟨1, true⟩], false⟩ =
      (.ok (.error .other), ⟨Function.update files path none, [], true⟩) := by
    rw [Prog.attempt, hremove]
  have hcreate : Disk.create path ⟨Function.update files path none, [], true⟩ =
      (.error .other, ⟨Function.update files path none, [], true⟩) := (if_pos hnames).trans rfl
  rw [writeRecord_eq path htoken, Prog.bind_ok hparent, hsame, Disk.replace, Prog.bind_ok hattempt,
    Prog.bind_error hcreate]
  exact Function.update_self _ _ _

end FileTokenStore

open FileTokenStore

/-- Every file holds the record of a token. -/
def sampleFiles : Path → Option Bytes := fun _ => some (utf8 (recordText "binding-a".toList savedToken))

theorem sampleFiles_apply (path : Path) :
    sampleFiles path = some (utf8 (recordText "binding-a".toList savedToken)) := rfl

theorem savedToken_noBreak : NoBreak savedToken.token := by decide

/-- Every save of every token leaves the record intact, however it is stopped and
whatever was in the file, if and only if the name of the file does not have the
extension of the other one. -/
theorem save_intact_iff (path : Path) : (∀ binding token disk, Intact path binding token disk) ↔
    path.extension ≠ some tmpExtension ∨ path.trailing = true := by
  constructor
  · intro hintact
    by_contra hnot
    rw [not_or, not_not, Bool.not_eq_true] at hnot
    obtain ⟨hext, htrailing⟩ := hnot
    have hnames : FilePaths.names path = true := by
      obtain ⟨name, hname, -⟩ := Option.bind_eq_some_iff.mp hext
      exact Path.names_iff.mpr ⟨⟨name, hname⟩, htrailing⟩
    have hsame := (Path.withExtension_eq_iff hnames (by decide)).mpr hext
    have hrecord : parseRecord (recordText "binding-a".toList savedToken) = some ("binding-a".toList, savedToken) :=
      parseRecord_recordText (by decide) (by decide) rfl
    have hafter := readRecord_of_files_none
      (writeRecord_over_itself hsame hnames savedToken_noBreak "binding-a".toList (sampleFiles_apply path))
    have hbefore : readRecord ⟨path, ⟨sampleFiles, crashAfterRemove path, false⟩⟩ =
        some ("binding-a".toList, savedToken) := by
      rw [readRecord_file hnames (sampleFiles_apply path), fromUtf8_utf8, Option.bind_some, hrecord]
    have hall := hintact "binding-a".toList savedToken ⟨sampleFiles, crashAfterRemove path, false⟩
    rw [Intact, hafter, hbefore, hrecord] at hall
    rcases hall with h | h
    · cases h
    · cases h.1
  · intro h binding token disk
    refine intact_of_ne (fun hnames hsame => ?_) binding token disk
    rcases h with hext | htrailing
    · exact hext ((Path.withExtension_eq_iff hnames (by decide)).mp hsame)
    · rw [(Path.names_iff.mp hnames).2] at htrailing
      cases htrailing

def tmpPath : Path := .absolute ["var".toList, "lib".toList, "myapp".toList, "lox_token.tmp".toList]

def renewedToken : LxToken := ⟨"eyJhbGciOiJIUzI1NiJ9.renewed".toList, 2345678, .sha256⟩

/-- The beginning of `renewedToken`. -/
def cutToken : LxToken := ⟨"eyJhbGci".toList, 2345678, .sha256⟩

/-- The record of `renewedToken` up to the end of `cutToken`. -/
def cutText : Str := unlines (recordHead "binding-a".toList cutToken) ++ ("token=".toList ++ cutToken.token)

theorem take_recordText :
    (utf8 (recordText "binding-a".toList renewedToken)).take (utf8 cutText).length = utf8 cutText := by
  have hhead : recordHead "binding-a".toList renewedToken = recordHead "binding-a".toList cutToken := rfl
  have htoken : "token=".toList ++ renewedToken.token ++ ['\n'] =
      "token=".toList ++ cutToken.token ++ "OiJIUzI1NiJ9.renewed\n".toList := by decide
  have hrest : recordText "binding-a".toList renewedToken = cutText ++ "OiJIUzI1NiJ9.renewed\n".toList := by
    rw [recordText_eq, hhead, cutText, List.append_assoc, htoken]
    exact (List.append_assoc _ _ _).symm
  rw [hrest, utf8_append, List.take_left]

/-- A save over its own file that ends inside the write. -/
theorem writeRecord_tmpPath_cut (n : Nat) :
    (writeRecord tmpPath "binding-a".toList renewedToken
        ⟨sampleFiles, [none, none, none, some ⟨n, true⟩], false⟩).2.files tmpPath =
      some ((utf8 (recordText "binding-a".toList renewedToken)).take n) := by
  have hnames : FilePaths.names tmpPath = true := by decide
  have hsame : tmpPath.withExtension tmpExtension = tmpPath := by decide
  generalize hbytes : utf8 (recordText "binding-a".toList renewedToken) = bytes
  have hparent : createParent tmpPath ⟨sampleFiles, [none, none, none, some ⟨n, true⟩], false⟩ =
      (.ok (), ⟨sampleFiles, [none, none, some ⟨n, true⟩], false⟩) := rfl
  have hread : Disk.read (⟨sampleFiles, [none, none, some ⟨n, true⟩], false⟩ : Disk Path) tmpPath = .ok _ :=
    Disk.read_eq_ok.mpr ⟨hnames, rfl⟩
  have hremove : ((Disk.remove tmpPath).attempt : Io Path (Except IoError Unit))
      ⟨sampleFiles, [none, none, some ⟨n, true⟩], false⟩ =
        (.ok (.ok ()), ⟨Function.update sampleFiles tmpPath none, [none, some ⟨n, true⟩], false⟩) := by
    rw [Prog.attempt, Disk.remove, hread]
    rfl
  generalize Function.update sampleFiles tmpPath none = files₁ at hremove
  have hcreate : Disk.create tmpPath ⟨files₁, [none, some ⟨n, true⟩], false⟩ =
      (.ok (), ⟨Function.update files₁ tmpPath (some []), [some ⟨n, true⟩], false⟩) := (if_pos hnames).trans rfl
  have hwrite : Disk.write tmpPath bytes ⟨Function.update files₁ tmpPath (some []), [some ⟨n, true⟩], false⟩ =
      (.error .other, ⟨Function.update (Function.update files₁ tmpPath (some [])) tmpPath (some (bytes.take n)), [],
        true⟩) := by
    have hcontent : (Function.update files₁ tmpPath (some []) tmpPath).getD [] = ([] : Bytes) := by
      rw [Function.update_self]
      rfl
    rw [Disk.write, Disk.step]
    simp only [hcontent, List.nil_append]
    rfl
  rw [writeRecord_eq tmpPath (by decide), hbytes, Prog.bind_ok hparent, hsame, Disk.replace, Prog.bind_ok hremove,
    Prog.bind_ok hcreate, Prog.bind_error hwrite]
  simp only [Function.update_self]

/-- The name of the file has the extension already, and the save crashes: after
the removal of the file there is no token, and inside the write a part of one. -/
theorem interrupted_save_loses_record :
    readRecord ⟨tmpPath, ⟨sampleFiles, [], false⟩⟩ = some ("binding-a".toList, savedToken) ∧
      readRecord ⟨tmpPath, (writeRecord tmpPath "binding-a".toList renewedToken
          ⟨sampleFiles, [none, some ⟨1, true⟩], false⟩).2⟩ = none ∧
      readRecord ⟨tmpPath, (writeRecord tmpPath "binding-a".toList renewedToken
          ⟨sampleFiles, [none, none, none, some ⟨(utf8 cutText).length, true⟩], false⟩).2⟩ =
        some ("binding-a".toList, cutToken) := by
  have hnames : FilePaths.names tmpPath = true := by decide
  have hsame : tmpPath.withExtension tmpExtension = tmpPath := by decide
  refine ⟨?_, ?_, ?_⟩
  · rw [readRecord_file hnames (sampleFiles_apply tmpPath), fromUtf8_utf8, Option.bind_some]
    exact parseRecord_recordText (by decide) (by decide) rfl
  · exact readRecord_of_files_none
      (writeRecord_over_itself hsame hnames (by decide) "binding-a".toList (sampleFiles_apply tmpPath))
  · rw [readRecord_file hnames (writeRecord_tmpPath_cut _), take_recordText, fromUtf8_utf8, Option.bind_some]
    exact parseRecord_cut (by decide) (by decide) rfl

end Lox
