import LoxWebsocket.Auth.Store

/-!
# Histories of a token file

What a file gives back is what was saved last (`file_serves_last_save`): the
record of a save is read exactly, a save that is refused changes nothing, and
after a clear there is nothing. There is one file for all identities, and a clear
removes it whichever of them it holds (`clear_keeps_others_iff`).
-/

namespace Lox

namespace FileTokenStore

section

variable {store : FileTokenStore} {binding : Str} {token : LxToken}

theorem load_eq_some : store.load binding = some token ↔ store.readRecord = some (binding, token) := by
  unfold load
  rcases store.readRecord with _ | ⟨saved, found⟩
  · simp
  · simp only [ite_not]
    split_ifs with h
    · simp [h]
    · simp [h]

theorem load_of_readRecord (h : store.readRecord = none) : store.load binding = none := by
  rw [load, h]

theorem readRecord_file {path : Path} {disk : Disk Path} {content : Bytes} (hnames : FilePaths.names path = true)
    (h : disk.files path = some content) : readRecord ⟨path, disk⟩ = (fromUtf8 content).bind parseRecord := by
  rw [readRecord, Disk.read_eq_ok.mpr ⟨hnames, h⟩]

theorem readRecord_of_files_none {path : Path} {disk : Disk Path} (h : disk.files path = none) :
    readRecord ⟨path, disk⟩ = none := by
  rw [readRecord]
  split
  · rfl
  · rename_i content hread
    rw [(Disk.read_eq_ok.mp hread).2] at h
    cases h

/-- What is read depends on the file alone. -/
theorem readRecord_congr {path : Path} {disk disk' : Disk Path} (h : disk'.files path = disk.files path) :
    readRecord ⟨path, disk'⟩ = readRecord ⟨path, disk⟩ := by
  have hread : disk'.read path = disk.read path := by
    unfold Disk.read
    rw [h]
  rw [readRecord, readRecord, hread]

/-! ## One operation -/

theorem path_save (store : FileTokenStore) (binding : Str) (token : LxToken) :
    (store.save binding token).path = store.path := by
  unfold save
  split_ifs
  · rfl
  · rfl

/-- A save puts the new record in the place of the old one, by way of the file
beside it. -/
theorem writeRecord_eq (path : Path) (h : NoBreak token.token) : writeRecord path binding token =
    (createParent path >>= fun _ =>
      Disk.replace (path.withExtension tmpExtension) path (utf8 (recordText binding token))) := by
  rw [writeRecord]
  refine (if_neg ?_).trans rfl
  rintro (hn | hr)
  · exact h.1 hn
  · exact h.2 hr

theorem writeRecord_refused (h : ¬ NoBreak token.token) (path : Path) (disk : Disk Path) :
    (writeRecord path binding token disk).2 = disk := by
  have hbreak : '\n' ∈ token.token ∨ '\r' ∈ token.token := by
    unfold NoBreak at h
    tauto
  rw [writeRecord, if_pos hbreak]
  rfl

/-- A token with a line break is refused. -/
theorem save_refused (hne : token.isEmpty = false) (h : ¬ NoBreak token.token) : store.save binding token = store := by
  rw [save, hne]
  simp only [Bool.false_eq_true, if_false, writeRecord_refused h]

theorem clear_sound (h : store.disk.Sound) (binding : Str) :
    (store.clear binding).disk.Sound ∧ (store.clear binding).readRecord = none := by
  obtain ⟨hsound, hgone⟩ := Disk.remove_sound h store.path
  refine ⟨hsound, ?_⟩
  by_cases hnames : FilePaths.names store.path = true
  · exact readRecord_of_files_none (hgone hnames)
  · rw [readRecord]
    simp only [clear, Disk.read, hnames]
    rfl

/-- If the removal is refused the file is as it was, and else there is nothing to
read. -/
theorem readRecord_clear (store : FileTokenStore) (binding : Str) :
    store.disk.Refuses ∧ (store.clear binding).readRecord = store.readRecord ∨
      ¬ store.disk.Refuses ∧ (store.clear binding).readRecord = none := by
  rcases hread : store.disk.read store.path with e | content
  · have hsame : store.clear binding = store := by simp only [clear, Disk.remove, hread]
    have hnone : store.readRecord = none := by rw [readRecord, hread]
    rw [hsame, hnone]
    simp only [and_true]
    exact em _
  · rcases Disk.remove_file hread with ⟨hrefuses, hfiles⟩ | ⟨hdone, hfiles⟩
    · exact .inl ⟨hrefuses, readRecord_congr (congrFun hfiles _)⟩
    · exact .inr ⟨hdone, readRecord_of_files_none hfiles⟩

/-- A token without a line break is saved. -/
theorem writeRecord_sound (binding : Str) (h : store.disk.Sound) (hnames : FilePaths.names store.path = true)
    (htoken : NoBreak token.token) : (writeRecord store.path binding token store.disk).2.Sound ∧
      (writeRecord store.path binding token store.disk).2.files store.path =
        some (utf8 (recordText binding token)) := by
  have hparent : (createParent store.path).wp (fun _ d' => d'.Sound) (fun _ _ => False) store.disk := by
    unfold createParent
    split
    · exact Disk.step_sound h fun d' hd' _ => hd'
    · exact h
  obtain ⟨_, d₁, hrun, h₁⟩ := Prog.exists_ok_of_wp hparent
  rw [writeRecord_eq store.path htoken, Prog.bind_ok hrun]
  exact Disk.replace_sound h₁ _ (Path.names_withExtension hnames (by decide)) hnames

theorem save_sound (h : store.disk.Sound) (hnames : FilePaths.names store.path = true) (hbinding : NoBreak binding)
    (htoken : NoBreak token.token) (hne : token.isEmpty = false) :
    (store.save binding token).disk.Sound ∧ (store.save binding token).readRecord = some (binding, token) := by
  obtain ⟨hsound, hfile⟩ := writeRecord_sound binding h hnames htoken
  have hsave : store.save binding token =
      { store with disk := (writeRecord store.path binding token store.disk).2 } := by
    rw [save, hne]
    rfl
  rw [hsave]
  refine ⟨hsound, ?_⟩
  refine (readRecord_file hnames hfile).trans ?_
  rw [fromUtf8_utf8]
  exact parseRecord_recordText hbinding htoken hne

end

/-! ## Histories -/

inductive StoreOp
  | save (binding : Str) (token : LxToken)
  | clear (binding : Str)

namespace StoreOp

def apply (store : FileTokenStore) : StoreOp → FileTokenStore
  | save binding token => store.save binding token
  | clear binding => store.clear binding

def binding : StoreOp → Str
  | save binding _ => binding
  | clear binding => binding

/-- A save that succeeds. -/
def Saves (binding : Str) (token : LxToken) : StoreOp → Prop
  | save b t => (b = binding ∧ t = token) ∧ t.isEmpty = false ∧ NoBreak t.token
  | clear _ => False

/-- A save that is refused. -/
def Refused : StoreOp → Prop
  | save _ t => t.isEmpty = false ∧ ¬ NoBreak t.token
  | clear _ => False

end StoreOp

/-- The store after the operations, in order. -/
def after (store : FileTokenStore) (ops : List StoreOp) : FileTokenStore := ops.foldl StoreOp.apply store

theorem after_concat (store : FileTokenStore) (ops : List StoreOp) (op : StoreOp) :
    store.after (ops ++ [op]) = op.apply (store.after ops) := by
  rw [after, after, List.foldl_append]
  rfl

/-- The last save that succeeded was this one, and there is no clear after it. -/
def LastSaved (ops : List StoreOp) (binding : Str) (token : LxToken) : Prop :=
  ∃ earlier op later, ops = earlier ++ op :: later ∧ op.Saves binding token ∧ ∀ o ∈ later, o.Refused

variable {store : FileTokenStore}

theorem path_apply (store : FileTokenStore) (op : StoreOp) : (op.apply store).path = store.path := by
  cases op with
  | save binding token => exact path_save store binding token
  | clear binding => rfl

/-- One operation on a disk without faults: a save that succeeds is what is read
afterwards, one that is refused changes nothing, and otherwise there is nothing. -/
theorem apply_cases (h : store.disk.Sound) (hnames : FilePaths.names store.path = true) {op : StoreOp}
    (hbinding : NoBreak op.binding) : (op.apply store).disk.Sound ∧
      ((∃ binding token, op.Saves binding token ∧ (op.apply store).readRecord = some (binding, token)) ∨
        op.Refused ∧ op.apply store = store ∨ (op.apply store).readRecord = none) := by
  cases op with
  | clear binding =>
    obtain ⟨hsound, hnone⟩ := clear_sound h binding
    exact ⟨hsound, .inr (.inr hnone)⟩
  | save binding token =>
    cases hne : token.isEmpty with
    | true =>
      have hclear : store.save binding token = store.clear binding := if_pos hne
      obtain ⟨hsound, hnone⟩ := clear_sound h binding
      rw [StoreOp.apply, hclear]
      exact ⟨hsound, .inr (.inr hnone)⟩
    | false =>
      by_cases htoken : NoBreak token.token
      · obtain ⟨hsound, hread⟩ := save_sound h hnames hbinding htoken hne
        exact ⟨hsound, .inl ⟨binding, token, ⟨⟨rfl, rfl⟩, hne, htoken⟩, hread⟩⟩
      · have hsame : StoreOp.apply store (.save binding token) = store := save_refused hne htoken
        rw [hsame]
        exact ⟨h, .inr (.inl ⟨⟨hne, htoken⟩, rfl⟩)⟩

/-- What is read after a history was saved last in it. -/
theorem lastSaved_of_readRecord (h : store.disk.Sound) (hnames : FilePaths.names store.path = true)
    (hempty : store.disk.files store.path = none) (ops : List StoreOp) (hops : ∀ op ∈ ops, NoBreak op.binding) :
    (store.after ops).disk.Sound ∧ (store.after ops).path = store.path ∧ ∀ binding token,
      (store.after ops).readRecord = some (binding, token) → LastSaved ops binding token := by
  induction ops using List.reverseRecOn with
  | nil =>
    refine ⟨h, rfl, fun binding token hread => ?_⟩
    rw [after, List.foldl_nil, readRecord_of_files_none hempty] at hread
    cases hread
  | append_singleton ops op ih =>
    rw [List.forall_mem_append, List.forall_mem_singleton] at hops
    obtain ⟨hsound, hpath, hlast⟩ := ih hops.1
    obtain ⟨hsound', hcases⟩ := apply_cases hsound (by rw [hpath]; exact hnames) hops.2
    rw [after_concat]
    refine ⟨hsound', (path_apply _ _).trans hpath, fun binding token hread => ?_⟩
    rcases hcases with ⟨b, t, hsaves, hbt⟩ | ⟨hrefused, hsame⟩ | hnone
    · rw [hbt] at hread
      cases hread
      exact ⟨ops, op, [], rfl, hsaves, by simp⟩
    · rw [hsame] at hread
      obtain ⟨earlier, o, later, rfl, hsaves, hlater⟩ := hlast binding token hread
      refine ⟨earlier, o, later ++ [op], by simp, hsaves, ?_⟩
      rw [List.forall_mem_append, List.forall_mem_singleton]
      exact ⟨hlater, hrefused⟩
    · rw [hnone] at hread
      cases hread

end FileTokenStore

open FileTokenStore

/-- What `writeRecord` has written is read exactly, for any text of the token
without a line break; and after any history from no file, what is loaded for an
identity is the token last saved for it. -/
theorem file_serves_last_save (store : FileTokenStore) (hsound : store.disk.Sound)
    (hnames : FilePaths.names store.path = true) :
    (∀ binding token, NoBreak binding → NoBreak token.token → token.token ≠ [] →
        readRecord { store with disk := (writeRecord store.path binding token store.disk).2 } =
          some (binding, token)) ∧
      (store.disk.files store.path = none → ∀ ops, (∀ op ∈ ops, NoBreak op.binding) → ∀ binding token,
        (store.after ops).load binding = some token → LastSaved ops binding token) := by
  refine ⟨fun binding token hbinding htoken hne => ?_, fun hempty ops hops binding token hload => ?_⟩
  · obtain ⟨-, hfile⟩ := writeRecord_sound binding hsound hnames htoken
    refine (readRecord_file hnames hfile).trans ?_
    rw [fromUtf8_utf8]
    exact parseRecord_recordText hbinding htoken (by simpa [LxToken.isEmpty] using hne)
  · exact (lastSaved_of_readRecord hsound hnames hempty ops hops).2.2 binding token (load_eq_some.mp hload)

def samplePath : Path := .absolute ["var".toList, "lib".toList, "myapp".toList, "lox_token.cfg".toList]

/-- A store that has no file yet. -/
def sampleStore : FileTokenStore := ⟨samplePath, ⟨fun _ => none, [], false⟩⟩

def savedToken : LxToken := ⟨"eyJhbGciOiJIUzI1NiJ9.payload".toList, 1234567, .sha256⟩

/-- A token with a line of its own. -/
def forgedToken : LxToken := ⟨"evil\nbinding=binding-b".toList, 1234567, .sha256⟩

theorem sampleStore_sound : sampleStore.disk.Sound := ⟨rfl, by simp [sampleStore]⟩

theorem sampleStore_saved :
    (sampleStore.save "binding-a".toList savedToken).disk.Sound ∧
      (sampleStore.save "binding-a".toList savedToken).readRecord = some ("binding-a".toList, savedToken) :=
  save_sound sampleStore_sound (by decide) (by decide) (by decide) rfl

/-- The forged token is refused, and the earlier one is still there. -/
theorem file_serves_last_save_forged :
    (sampleStore.after [.save "binding-a".toList savedToken, .save "binding-a".toList forgedToken]).load
        "binding-a".toList = some savedToken ∧
      LastSaved [.save "binding-a".toList savedToken, .save "binding-a".toList forgedToken] "binding-a".toList
        savedToken := by
  have hrefused : (sampleStore.save "binding-a".toList savedToken).save "binding-a".toList forgedToken =
      sampleStore.save "binding-a".toList savedToken := save_refused rfl (by decide)
  have hload : (sampleStore.after [.save "binding-a".toList savedToken, .save "binding-a".toList forgedToken]).load
      "binding-a".toList = some savedToken := by
    rw [load_eq_some]
    exact (congrArg readRecord hrefused).trans sampleStore_saved.2
  refine ⟨hload, (file_serves_last_save sampleStore sampleStore_sound (by decide)).2 rfl _ ?_ _ _ hload⟩
  simp only [List.forall_mem_cons, List.not_mem_nil, false_implies, implies_true, and_true]
  exact ⟨by decide, by decide⟩

/-! ## Other identities -/

/-- After any history, a clear, and a save of an empty token, leave what is
loaded for the other identities as it was if and only if the file cannot be
removed, or is not that of another identity. -/
theorem clear_keeps_others_iff (start : FileTokenStore) (ops : List StoreOp) (binding : Str) :
    (∀ other, other ≠ binding →
        ((start.after ops).clear binding).load other = (start.after ops).load other ∧
          ∀ token : LxToken, token.isEmpty = true →
            ((start.after ops).save binding token).load other = (start.after ops).load other) ↔
      (start.after ops).disk.Refuses ∨
        ∀ saved token, (start.after ops).readRecord = some (saved, token) → saved = binding := by
  generalize start.after ops = store
  have hsave (token : LxToken) (hempty : token.isEmpty = true) : store.save binding token = store.clear binding :=
    if_pos hempty
  rcases readRecord_clear store binding with ⟨hrefuses, hsame⟩ | ⟨hdone, hnone⟩
  · have hload (other : Str) : (store.clear binding).load other = store.load other := by rw [load, load, hsame]
    refine iff_of_true (fun other _ => ⟨hload other, fun token hempty => ?_⟩) (.inl hrefuses)
    rw [hsave token hempty, hload other]
  have hgone (other : Str) : (store.clear binding).load other = none := by rw [load, hnone]
  rw [or_iff_right hdone]
  constructor
  · intro hkeeps saved token hread
    by_contra hne
    have hload := (hkeeps saved hne).1
    rw [hgone, load_eq_some.mpr hread] at hload
    cases hload
  · intro hown other hne
    have hother : store.load other = none := by
      rw [Option.eq_none_iff_forall_not_mem]
      intro token hload
      exact hne (hown other token (load_eq_some.mp hload))
    refine ⟨by rw [hgone, hother], fun token hempty => ?_⟩
    rw [hsave token hempty, hgone, hother]

/-- A token is forgotten when another identity clears its own, and when it saves
an empty one. -/
theorem clear_forgets_other :
    (sampleStore.after [.save "binding-a".toList savedToken]).load "binding-a".toList = some savedToken ∧
      (sampleStore.after [.save "binding-a".toList savedToken, .clear "binding-b".toList]).load
        "binding-a".toList = none ∧
      (sampleStore.after [.save "binding-a".toList savedToken, .save "binding-b".toList LxToken.default]).load
        "binding-a".toList = none := by
  obtain ⟨hsound, hread⟩ := sampleStore_saved
  have hcleared := (clear_sound hsound "binding-b".toList).2
  have hnone : ((sampleStore.save "binding-a".toList savedToken).clear "binding-b".toList).load "binding-a".toList =
      none := by rw [load, hcleared]
  exact ⟨load_eq_some.mpr hread, hnone, hnone⟩

end Lox
