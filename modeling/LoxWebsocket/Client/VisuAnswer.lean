import LoxWebsocket.Client.Session

/-!
# Answers that feed the visualisation hash

A secured control waits in a queue of one place until the answer to a
`getvisusalt` gives the key and the salt its password is hashed with. Whether
an answer is one to a `getvisusalt` is decided by the command at the front of
the pending queue, not by what the answer says. So an answer to another command
leaves the secured controls alone unless it arrives when the front of the queue
is a `getvisusalt` and a control is queued (`visuKept_iff`); then it is hashed
with (`getkey2_feeds_visu`).
-/

namespace Lox

variable {C : Crates}

/-! ## Answers to other commands -/

def isGetVisuSalt (cmd : Str) : Bool := cmdGetVisualPasswd.isPrefixOf cmd

/-- The control field, as the client extracts and decodes it, stands for a
command other than `getvisusalt`. -/
def NamesOther (keys : SessionKeys C) (payload : Bytes) : Prop :=
  ∃ ctrl plain, extractLlControl payload = some ctrl ∧ decodeControl ctrl keys = some plain ∧
    controlMatches plain cmdGetVisualPasswd = false

def WriterMsg.isSecured : WriterMsg → Bool
  | .command cmd _ => "jdev/sps/ios/".toList.isPrefixOf cmd
  | _ => false

/-- No secured command is emitted, and the queued controls stay. -/
structure VisuKept {η : Type} (s s' : ReaderState η) : Prop where
  out : s'.out.filter WriterMsg.isSecured = s.out.filter WriterMsg.isSecured
  visu : s'.shared.visu = s.shared.visu

/-- The command at the front of the queue is a `getvisusalt`. -/
def PendingQueue.frontIsVisu (q : PendingQueue) : Bool :=
  q.entries.head?.any fun e => isGetVisuSalt e.plaintextCmd

section

variable {η : Type} [LoxHandler η] (keys : SessionKeys C) (P : Parsers)

/-- The queued controls stay unless the front of the queue is a `getvisusalt`
and a control is queued, whatever the answer says. -/
theorem visuKept_onTextMessage (payload : Bytes) (s : ReaderState η) :
    VisuKept s (Reader.onTextMessage keys P payload s).2 ↔
      ¬ (s.shared.pending.frontIsVisu = true ∧ s.shared.visu ≠ []) := by
  cases he : s.shared.pending.entries with
  | nil =>
    rw [Reader.onTextMessage_unsolicited P (resolveText_nil keys he payload)]
    exact iff_of_true ⟨rfl, rfl⟩ (by simp [PendingQueue.frontIsVisu, he])
  | cons e rest =>
    obtain ⟨r, n, hr, hcmd, -⟩ := resolveText_cons keys he payload
    have hfront : releasesVisu r s.shared.visu = true ↔
        s.shared.pending.frontIsVisu = true ∧ s.shared.visu ≠ [] := by
      simp [releasesVisu, PendingQueue.frontIsVisu, isGetVisuSalt, he, hcmd]
    rw [Reader.onTextMessage_resolved P hr, ← hfront]
    cases hrel : releasesVisu r s.shared.visu with
    | false =>
      refine iff_of_true ?_ (by simp)
      simp only [hrel]
      exact ⟨rfl, rfl⟩
    | true =>
      refine iff_of_false (fun h => (hfront.mp hrel).2 ?_) (by simp)
      have hv := h.visu
      simp only [hrel, if_true, Reader.visu_releaseVisu] at hv
      exact hv.symm

/-- An answer to another command leaves the secured controls alone, except if
it arrives when the front of the queue is a `getvisusalt` and a control is
queued. -/
theorem visuKept_iff (payload : Bytes) (s : ReaderState η) :
    (NamesOther keys payload → VisuKept s (Reader.onTextMessage keys P payload s).2) ↔
      ¬ (NamesOther keys payload ∧ s.shared.pending.frontIsVisu = true ∧ s.shared.visu ≠ []) := by
  rw [visuKept_onTextMessage keys P payload s]
  exact not_and.symm

end

/-! ## An answer to `getkey2` that is hashed with -/

/-- An answer with a key and a salt, and its document. -/
def keySaltAnswer (control key salt : Str) : Bytes :=
  utf8 ("\x7b\"LL\":\x7b\"control\":\"".toList ++ control ++ "\",\"value\":\x7b\"key\":\"".toList ++ key ++
    "\",\"salt\":\"".toList ++ salt ++ "\"\x7d,\"code\":\"200\"\x7d\x7d".toList)

def keySaltDocument (control key salt : Str) : Json :=
  .obj [("LL".toList, .obj [("control".toList, .str control),
    ("value".toList, .obj [("key".toList, .str key), ("salt".toList, .str salt)]), ("code".toList, .str "200".toList)])]

def getkey2Answer : Bytes := keySaltAnswer "dev/sys/getkey2/admin".toList "4a".toList "b1".toList

def visuSaltAnswer : Bytes := keySaltAnswer "dev/sys/getvisusalt/admin".toList "5c".toList "c2".toList

/-- The HMAC-SHA1 of the password `1234`, with the key and the salt of each of them. -/
def getkey2Mac : Bytes := [143, 46, 109, 30, 100, 6, 55, 202, 50, 67, 186, 39, 84, 101, 251, 52, 176, 60, 22, 56]

def visuSaltMac : Bytes :=
  [90, 217, 161, 146, 94, 241, 170, 109, 48, 237, 218, 1, 221, 145, 111, 221, 148, 75, 205, 196]

/-- The crates on these answers. -/
def Parsers.keySalt : Parsers where
  fromSlice b :=
    if b = getkey2Answer then .ok (keySaltDocument "dev/sys/getkey2/admin".toList "4a".toList "b1".toList)
    else if b = visuSaltAnswer then .ok (keySaltDocument "dev/sys/getvisusalt/admin".toList "5c".toList "c2".toList)
    else .error "expected value at line 1 column 1".toList
  digest _ b :=
    if b = utf8 "1234:b1".toList then
      [26, 77, 60, 101, 15, 81, 96, 62, 202, 56, 152, 110, 7, 116, 130, 157, 194, 102, 238, 3]
    else if b = utf8 "1234:c2".toList then
      [110, 157, 179, 216, 226, 96, 228, 62, 175, 128, 1, 31, 86, 142, 173, 213, 181, 122, 106, 236]
    else []
  hmac _ key data :=
    if key = [74] ∧ data = utf8 "1A4D3C650F51603ECA38986E0774829DC266EE03".toList then .ok getkey2Mac
    else if key = [92] ∧ data = utf8 "6E9DB3D8E260E43EAF80011F568EADD5B57A6AEC".toList then .ok visuSaltMac
    else .error "not in the table".toList
  hexErrorText _ := "Odd number of digits".toList

theorem parseKeySalt_document {P : Parsers} {payload : Bytes} {control key salt : Str}
    (h : parseJson P payload = .ok (keySaltDocument control key salt)) :
    parseKeySalt P payload = .ok ⟨key, salt, .sha1⟩ := by
  simp only [parseKeySalt, llValue, h]
  rfl

/-- The control that is switched to `value` with the password. -/
def sampleControl (value : Str) : VisuPending := ⟨"0f1e".toList, value, "1234".toList⟩

/-- The secured command with a hash. -/
def sampleSecured (mac : Bytes) (value : Str) : Str :=
  "jdev/sps/ios/".toList ++ hexEncode mac ++ "/".toList ++ "0f1e".toList ++ "/".toList ++ value

theorem flushVisu_sample {payload : Bytes} {keySalt : KeySalt} {mac : Bytes}
    (hparse : parseKeySalt .keySalt payload = .ok keySalt)
    (hhash : hashVisuPassword .keySalt keySalt "1234".toList = .ok (hexEncode mac)) (value : Str) :
    flushVisu .keySalt [sampleControl value] payload = [sampleSecured mac value] := by
  simp only [flushVisu, hparse, securedCmd, sampleControl, List.filterMap_cons, List.filterMap_nil, hhash]
  rfl

theorem flushVisu_getkey2Answer (value : Str) :
    flushVisu .keySalt [sampleControl value] getkey2Answer = [sampleSecured getkey2Mac value] := by
  have hjson : parseJson .keySalt getkey2Answer =
      .ok (keySaltDocument "dev/sys/getkey2/admin".toList "4a".toList "b1".toList) := by
    simp only [parseJson, Parsers.keySalt, ↓reduceIte]
  exact flushVisu_sample (parseKeySalt_document hjson) rfl value

theorem flushVisu_visuSaltAnswer (value : Str) :
    flushVisu .keySalt [sampleControl value] visuSaltAnswer = [sampleSecured visuSaltMac value] := by
  have hne : visuSaltAnswer ≠ getkey2Answer := by decide
  have hjson : parseJson .keySalt visuSaltAnswer =
      .ok (keySaltDocument "dev/sys/getvisusalt/admin".toList "5c".toList "c2".toList) := by
    simp only [parseJson, Parsers.keySalt, if_neg hne, ↓reduceIte]
  exact flushVisu_sample (parseKeySalt_document hjson) rfl value

theorem getkey2Answer_namesOther : NamesOther sampleKeys getkey2Answer := by
  refine ⟨"dev/sys/getkey2/admin".toList, "dev/sys/getkey2/admin".toList, ?_, ?_, ?_⟩
  · decide
  · decide
  · decide

namespace Session

/-- A `getkey2` expires; a secured control is taken, and only then the answer to
the `getkey2` comes. -/
def lateKeyRun : List Label :=
  [.sendCommand "jdev/sys/getkey2/admin".toList, .takeCommand 0, .written, .expire 30,
    .enqueue (.visuControl "0f1e".toList "on".toList "1234".toList), .takeCommand 31, .written, .serve getkey2Answer]

/-- The answer to the `getkey2` releases the control, with its key: the reader's work
on it sends the command to the writer. -/
theorem getkey2_feeds_visu :
    NamesOther sampleKeys getkey2Answer ∧
    ∃ s, run (step sampleEnv .keySalt) sampleStart lateKeyRun = some s ∧
      s.reader = .idle ∧ s.answers[s.read]? = some getkey2Answer ∧
      s.writer.visu = [sampleControl "on".toList] ∧
      (let r := (Reader.onTextMessage sampleKeys .keySalt getkey2Answer
        ⟨.start, HandlerGuard.new (), s.readerShared, [], []⟩).2
      r.shared.visu = [] ∧ r.out = [.command (sampleSecured getkey2Mac "on".toList) none]) ∧
      ∃ ls s', run (step sampleEnv .keySalt) s ls = some s' ∧
        s'.out = [.command (sampleSecured getkey2Mac "on".toList) none] := by
  obtain ⟨text, salt, pos, htext, hkey⟩ := step_takeEncrypted sampleEnv .keySalt
    sampleCrates_lawful.toTotal (s := { sampleStart with
      commands := [.encrypted "jdev/sys/getkey2/admin".toList 0]
      waiters := ["jdev/sys/getkey2/admin".toList] }) rfl rfl (by decide) 0
  let entry : PendingEntry := ⟨"jdev/sys/getkey2/admin".toList, text, some 0, 30⟩
  let expired : Session (Option LxToken) := { sampleStart with
    writer := ⟨salt, pos, ⟨[], 0, 0, 1⟩, [], Liveness.new,
      [(0, .error (.timeout "no response to jdev/sys/getkey2".toList))], [entry]⟩
    commands := [.visuControl "0f1e".toList "on".toList "1234".toList]
    waiters := ["jdev/sys/getkey2/admin".toList]
    received := [text] }
  obtain ⟨text', salt', pos', htext', hvisu⟩ := step_takeVisu sampleEnv .keySalt
    sampleCrates_lawful.toTotal (s := expired) rfl rfl 31
  let s : Session (Option LxToken) := { expired with
    writer := { expired.writer with
      salt := salt', pos := pos'
      visu := [sampleControl "on".toList]
      pending := ⟨[⟨cmdGetVisuSalt "admin".toList, text', none, 61⟩], 0, 0, 1⟩
      pushed := [entry, ⟨cmdGetVisuSalt "admin".toList, text', none, 61⟩] }
    pc := .expirePending
    commands := []
    received := [text, text']
    answers := [getkey2Answer] }
  have hrun : run (step sampleEnv .keySalt) sampleStart lateKeyRun = some s := by
    refine run_cons.mpr ⟨_, rfl, run_cons.mpr ⟨_, hkey, ?_⟩⟩
    refine run_cons.mpr ⟨_, rfl, run_cons.mpr ⟨_, rfl, run_cons.mpr ⟨expired, rfl, ?_⟩⟩⟩
    -- the Miniserver answers because the texts are encrypted ones
    have hencrypted : encrypted { s with answers := [] } = [text, text'] := by
      simp only [encrypted, s, List.filter_cons, htext, htext', if_true, List.filter_nil]
    refine run_cons.mpr ⟨_, hvisu, run_cons.mpr ⟨_, rfl, run_cons.mpr ⟨s, ?_, rfl⟩⟩⟩
    exact step_serve _ _ (s := { s with answers := [] }) (hencrypted ▸ Nat.zero_lt_succ _) _
  have hreader : let r := (Reader.onTextMessage sampleKeys .keySalt getkey2Answer
      ⟨.start, HandlerGuard.new (), s.readerShared, [], []⟩).2
      r.shared.visu = [] ∧ r.out = [.command (sampleSecured getkey2Mac "on".toList) none] := by
    obtain ⟨r, n, hres, hcmd, -⟩ := resolveText_cons sampleKeys
      (q := ⟨[⟨cmdGetVisuSalt "admin".toList, text', none, 61⟩], 0, 0, 1⟩) rfl getkey2Answer
    have hrel : releasesVisu r s.writer.visu = true := by
      rw [releasesVisu, hcmd]
      rfl
    have hflush : flushVisu .keySalt s.writer.visu getkey2Answer = [sampleSecured getkey2Mac "on".toList] :=
      flushVisu_getkey2Answer _
    rw [Reader.onTextMessage_resolved _ hres]
    simp only [readerShared, hrel, if_true, Reader.releaseVisu, hflush]
    exact ⟨rfl, rfl⟩
  have hanswer : s.answers[s.read]? = some getkey2Answer := rfl
  obtain ⟨ls, s', hls, -, -, hout, -⟩ := onTextMessage_run sampleEnv .keySalt rfl hanswer .start (HandlerGuard.new ())
  exact ⟨getkey2Answer_namesOther, s, hrun, rfl, hanswer, rfl, hreader, ls, s', hls, hout.trans hreader.2⟩

end Session

end Lox
