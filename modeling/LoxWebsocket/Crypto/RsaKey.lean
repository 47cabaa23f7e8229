import LoxWebsocket.Framework.Chunks
import LoxWebsocket.Framework.Fenced
import LoxWebsocket.Auth.Flow
import LoxWebsocket.Client.Echo

/-!
# The public key of the Miniserver

The Miniserver labels its public key as a certificate, and often sends it in one line.
`normalizePublicKeyPem` relabels it and wraps it in lines of 64. It slices the text from
the end of the first begin marker to the start of the first end marker, and panics
(`none`) if these are not in order: if and only if an end marker, under either label, is
begun before the first begin marker has ended (`normalizePublicKeyPem_returns_iff`). A
marker is a label between dashes, and two of them may share dashes, so such a text is
also made by a key that reads like a label (`normalizePublicKeyPem_keeps_key`).
-/

namespace Lox

/-! ## Markers -/

inductive PemLabel
  | certificate
  | publicKey
  deriving DecidableEq

def beginMarker : PemLabel → Str
  | .certificate => "-----BEGIN CERTIFICATE-----".toList
  | .publicKey => "-----BEGIN PUBLIC KEY-----".toList

def endMarker : PemLabel → Str
  | .certificate => "-----END CERTIFICATE-----".toList
  | .publicKey => "-----END PUBLIC KEY-----".toList

/-- What is between the dashes of a marker. -/
def beginWord : PemLabel → Str
  | .certificate => "BEGIN CERTIFICATE".toList
  | .publicKey => "BEGIN PUBLIC KEY".toList

def endWord : PemLabel → Str
  | .certificate => "END CERTIFICATE".toList
  | .publicKey => "END PUBLIC KEY".toList

theorem beginMarker_eq (l : PemLabel) : beginMarker l = fenced '-' 5 (beginWord l) := by cases l <;> decide

theorem endMarker_eq (l : PemLabel) : endMarker l = fenced '-' 5 (endWord l) := by cases l <;> decide

theorem core_beginWord (l : PemLabel) : Core '-' (beginWord l) := by
  cases l <;> exact ⟨by decide, by decide⟩

theorem core_endWord (l : PemLabel) : Core '-' (endWord l) := by
  cases l <;> exact ⟨by decide, by decide⟩

/-! ## Normalising -/

/-- `PUBLIC KEY` for `CERTIFICATE` in the markers. -/
def relabel (s : Str) : Str :=
  replaceAll (endMarker .certificate) (endMarker .publicKey)
    (replaceAll (beginMarker .certificate) (beginMarker .publicKey) s)

/-- The text that is searched for markers. -/
def prepare (pem : Str) : Str := relabel ((trim pem).filter (· ≠ '\r'))

/-- What is between the first markers, without whitespace; if one is missing, everything
that is neither whitespace nor a dash. The slice is refused if its ends are not in order. -/
def pemBody (s : Str) : Option Str :=
  match find utf8Len (beginMarker .publicKey) s, find utf8Len (endMarker .publicKey) s with
  | some a, some b =>
    (cutRange utf8Len s (a + (utf8 (beginMarker .publicKey)).length) b).map fun body =>
      body.filter fun c => !isWhiteSpace c
  | _, _ => some (s.filter fun c => !isWhiteSpace c && c != '-')

/-- The body between its markers, in lines of 64 bytes. -/
def pemText (body : Str) : Str :=
  beginMarker .publicKey ++ (['\n'] ++ ((chunks 64 (utf8 body)).flatMap
    (fun chunk => (fromUtf8 chunk).getD [] ++ ['\n']) ++ (endMarker .publicKey ++ ['\n'])))

def normalizePublicKeyPem (pem : Str) : Option Str := (pemBody (prepare pem)).map pemText

/-! ## When it returns -/

def IsBegin (X : Str) : Prop := ∃ l, X = beginWord l
def IsEnd (X : Str) : Prop := ∃ l, X = endWord l

theorem core_of_isBegin (X : Str) (h : IsBegin X) : Core '-' X := by
  obtain ⟨l, rfl⟩ := h
  exact core_beginWord l

theorem core_of_isEnd (X : Str) (h : IsEnd X) : Core '-' X := by
  obtain ⟨l, rfl⟩ := h
  exact core_endWord l

theorem isBegin_beginWord (l : PemLabel) : IsBegin (beginWord l) := ⟨l, rfl⟩

theorem isEnd_endWord (l : PemLabel) : IsEnd (endWord l) := ⟨l, rfl⟩

theorem beginWord_ne_endWord (l k : PemLabel) : beginWord l ≠ endWord k := by cases l <;> cases k <;> decide

theorem not_isEnd_beginWord (l : PemLabel) : ¬ IsEnd (beginWord l) := by
  rintro ⟨k, h⟩
  exact beginWord_ne_endWord l k h

theorem not_isBegin_endWord (l : PemLabel) : ¬ IsBegin (endWord l) := by
  rintro ⟨k, h⟩
  exact beginWord_ne_endWord k l h.symm

/-- An end marker, under either label, is begun before the first begin marker, under
either label, has ended. Carriage returns do not count. -/
def MarkersCrossed (pem : Str) : Prop := Crossed '-' 5 IsBegin IsEnd (pem.filter (· ≠ '\r'))

/-- A certificate marker that was not relabelled has a relabelled one before it. -/
structure Relabelled (s : Str) : Prop where
  begins : Preceded '-' 5 (beginWord .certificate) (beginWord .publicKey) s
  ends : Preceded '-' 5 (endWord .certificate) (endWord .publicKey) s

theorem relabelled_relabel (s : Str) : Relabelled (relabel s) := by
  rw [relabel, beginMarker_eq, beginMarker_eq, endMarker_eq, endMarker_eq]
  refine ⟨?_, preceded_of_replaceAll (by decide) (core_endWord _) (core_endWord _) (by decide) _⟩
  rw [preceded_replaceAll (by decide) (core_endWord _) (core_endWord _) (core_beginWord _) (core_beginWord _)
    (beginWord_ne_endWord _ _).symm (beginWord_ne_endWord _ _).symm (beginWord_ne_endWord _ _).symm
    (beginWord_ne_endWord _ _).symm]
  exact preceded_of_replaceAll (by decide) (core_beginWord _) (core_beginWord _) (by decide) _

theorem crossed_relabel (s : Str) : Crossed '-' 5 IsBegin IsEnd (relabel s) ↔ Crossed '-' 5 IsBegin IsEnd s := by
  rw [relabel, beginMarker_eq, beginMarker_eq, endMarker_eq, endMarker_eq,
    crossed_replaceAll (by decide) (core_endWord _) (core_endWord _) core_of_isBegin core_of_isEnd
      (iff_of_false (not_isBegin_endWord _) (not_isBegin_endWord _)) (iff_of_true (isEnd_endWord _) (isEnd_endWord _)),
    crossed_replaceAll (by decide) (core_beginWord _) (core_beginWord _) core_of_isBegin core_of_isEnd
      (iff_of_true (isBegin_beginWord _) (isBegin_beginWord _))
      (iff_of_false (not_isEnd_beginWord _) (not_isEnd_beginWord _))]

/-- What is sliced, if the markers are in order. -/
theorem pemBody_of_first {s u m : Str} (hbegin : FirstAt (beginMarker .publicKey) u s)
    (hend : FirstAt (endMarker .publicKey) (u ++ (beginMarker .publicKey ++ m)) s) :
    pemBody s = some (m.filter fun c => !isWhiteSpace c) := by
  obtain ⟨r, rfl⟩ := hend.occurs
  have hcut := cutRange_append utf8Len_pos (u ++ beginMarker .publicKey) m (endMarker .publicKey ++ r)
  rw [weight_append, weight_utf8Len (beginMarker _)] at hcut
  simp only [List.append_assoc] at hbegin hend hcut ⊢
  rw [pemBody, find, find, findFront_eq_some_iff.mpr hbegin, findFront_eq_some_iff.mpr hend, Option.map_some,
    Option.map_some, weight_append, weight_append, weight_utf8Len (beginMarker _), ← Nat.add_assoc]
  dsimp only
  rw [hcut, Option.map_some]

/-- A marker of either label is a relabelled one, or there is one before it. -/
theorem exists_relabelled {s : Str} {word : PemLabel → Str}
    (hs : Preceded '-' 5 (word .certificate) (word .publicKey) s) {k l : Nat}
    (h : MarkAt '-' 5 (fun X => ∃ label, X = word label) s k l) :
    ∃ v, v ++ fenced '-' 5 (word .publicKey) <+: s ∧ v.length ≤ k := by
  obtain ⟨v, X, ⟨label, rfl⟩, hv, rfl, -⟩ := h
  cases label with
  | publicKey => exact ⟨v, hv, Nat.le_refl _⟩
  | certificate =>
    obtain ⟨i, j, ⟨v', X, rfl, hv', rfl, -⟩, hlt⟩ := hs _ _ ⟨v, _, rfl, hv, rfl, rfl⟩
    exact ⟨v', hv', Nat.le_of_lt hlt⟩

/-- The first begin marker of either label is a relabelled one. -/
theorem Relabelled.first_le {s u : Str} (hs : Relabelled s) (hu : FirstAt (beginMarker .publicKey) u s) {k l : Nat}
    (h : MarkAt '-' 5 IsBegin s k l) : u.length ≤ k := by
  obtain ⟨v, hv, hle⟩ := exists_relabelled hs.begins h
  rw [beginMarker_eq] at hu
  exact (hu.first v hv).trans hle

/-- The ends of the slice are out of order only if the markers are. -/
theorem crossed_of_pemBody {s : Str} (hs : Relabelled s) (hnone : pemBody s = none) :
    Crossed '-' 5 IsBegin IsEnd s := by
  cases hbegin : findFront (beginMarker .publicKey) s with
  | none => simp [pemBody, find, hbegin] at hnone
  | some u =>
    cases hend : findFront (endMarker .publicKey) s with
    | none => simp [pemBody, find, hbegin, hend] at hnone
    | some v =>
      rw [findFront_eq_some_iff] at hbegin hend
      have hlt : v.length < (u ++ beginMarker .publicKey).length := by
        by_contra hge
        obtain ⟨m, rfl⟩ := List.prefix_of_prefix_length_le hbegin.occurs
          ((List.prefix_append _ _).trans hend.occurs) (Nat.le_of_not_lt hge)
        rw [List.append_assoc] at hend
        rw [pemBody_of_first hbegin hend] at hnone
        cases hnone
      have hfirst := fun k l => hs.first_le hbegin (k := k) (l := l)
      rw [beginMarker_eq] at hbegin hlt
      rw [endMarker_eq] at hend
      rw [List.length_append, length_fenced] at hlt
      exact ⟨_, _, _, _, ⟨u, _, isBegin_beginWord _, hbegin.occurs, rfl, rfl⟩, hfirst,
        ⟨v, _, isEnd_endWord _, hend.occurs, rfl, rfl⟩, hlt⟩

/-- The first begin marker, if it is one of either label that no other is before. -/
theorem Relabelled.firstAt {s u : Str} (hs : Relabelled s) {label : PemLabel}
    (hu : u ++ fenced '-' 5 (beginWord label) <+: s) (hfirst : ∀ k l, MarkAt '-' 5 IsBegin s k l → u.length ≤ k) :
    label = .publicKey ∧ FirstAt (beginMarker .publicKey) u s := by
  have hlabel : label = .publicKey := by
    cases label with
    | publicKey => rfl
    | certificate =>
      obtain ⟨_, _, ⟨v, X, rfl, hv, rfl, -⟩, hearlier⟩ := hs.begins _ _ ⟨u, _, rfl, hu, rfl, rfl⟩
      have hle := hfirst _ _ ⟨v, _, isBegin_beginWord _, hv, rfl, rfl⟩
      omega
  subst hlabel
  rw [beginMarker_eq]
  exact ⟨rfl, hu, fun v hv => hfirst _ _ ⟨v, _, isBegin_beginWord _, hv, rfl, rfl⟩⟩

theorem pemBody_of_crossed {s : Str} (hs : Relabelled s) (h : Crossed '-' 5 IsBegin IsEnd s) : pemBody s = none := by
  obtain ⟨i, j, k, l, ⟨u, X, ⟨label, rfl⟩, hu, rfl, rfl⟩, hfirst, hend, hlt⟩ := h
  obtain ⟨rfl, hbegin⟩ := hs.firstAt hu hfirst
  obtain ⟨v, hv, hvk⟩ := exists_relabelled hs.ends hend
  rw [← endMarker_eq] at hv
  obtain ⟨v', hv'⟩ := exists_firstAt hv
  -- the first end marker is begun in the text up to the end of the begin marker
  have hle := hv'.first v hv
  have hlen : (u ++ beginMarker .publicKey).length = u.length + (2 * 5 + (beginWord .publicKey).length) := by
    rw [beginMarker_eq, List.length_append, length_fenced]
  have hpre : v' <+: u ++ beginMarker .publicKey :=
    List.prefix_of_prefix_length_le ((List.prefix_append _ _).trans hv'.occurs) hbegin.occurs (by omega)
  have hweight := weight_lt_of_prefix utf8Len_pos hpre (by omega)
  rw [weight_append, weight_utf8Len (beginMarker _)] at hweight
  rw [pemBody, find, find, findFront_eq_some_iff.mpr hbegin, findFront_eq_some_iff.mpr hv', Option.map_some,
    Option.map_some]
  dsimp only
  rw [cutRange_of_lt hweight, Option.map_none]

theorem dash_notMem_of_white {l : Str} (h : ∀ c ∈ l, isWhiteSpace c = true) (q : Char → Bool) : '-' ∉ l.filter q := by
  intro hmem
  exact absurd (h _ (List.mem_of_mem_filter hmem)) (by decide)

/-- Whitespace around the text has no markers. -/
theorem crossed_prepare (pem : Str) : Crossed '-' 5 IsBegin IsEnd (prepare pem) ↔ MarkersCrossed pem := by
  obtain ⟨front, back, hpem, hfront, hback⟩ := exists_append_trim pem
  rw [prepare, crossed_relabel, MarkersCrossed]
  conv_rhs => rw [hpem]
  rw [List.filter_append, List.filter_append, crossed_surrounded (by decide) (dash_notMem_of_white hfront _)
    (dash_notMem_of_white hback _)]

theorem normalizePublicKeyPem_eq_none_iff (pem : Str) : normalizePublicKeyPem pem = none ↔ MarkersCrossed pem := by
  have hs : Relabelled (prepare pem) := relabelled_relabel _
  rw [normalizePublicKeyPem, Option.map_eq_none_iff, ← crossed_prepare]
  exact ⟨crossed_of_pemBody hs, pemBody_of_crossed hs⟩

/-- The key of a `getPublicKey` answer. -/
def publicKeyValue (P : Parsers) (body : Bytes) : Except Error Str := do
  let root ← parseJson P body
  match root.get "LL".toList with
  | none => .error (.protocol "getPublicKey missing LL".toList)
  | some ll =>
    match (ll.get "value".toList).bind Json.asStr with
    | none => .error (.protocol "getPublicKey missing LL.value".toList)
    | some publicKey =>
      if publicKey.isEmpty then .error (.protocol "public key is empty".toList) else .ok publicKey

/-- What is made of the answer; `none` is a panic. -/
def getPublicKey (P : Parsers) (body : Bytes) : Option (Except Error Str) :=
  match publicKeyValue P body with
  | .error e => some (.error e)
  | .ok publicKey => (normalizePublicKeyPem publicKey).map .ok

/-- Normalising returns unless an end marker is begun before the first begin marker has
ended, and so does the request for the key. -/
theorem normalizePublicKeyPem_returns_iff (pem : Str) (P : Parsers) (body : Bytes) :
    ((∃ out, normalizePublicKeyPem pem = some out) ↔ ¬ MarkersCrossed pem) ∧
    ((∃ r, getPublicKey P body = some r) ↔
      ∀ value, publicKeyValue P body = .ok value → ¬ MarkersCrossed value) := by
  refine ⟨?_, ?_⟩
  · rw [← normalizePublicKeyPem_eq_none_iff, ← Option.ne_none_iff_exists']
  · rw [getPublicKey]
    cases publicKeyValue P body with
    | error e => exact iff_of_true ⟨_, rfl⟩ fun value h => nomatch h
    | ok publicKey =>
      simp only [Except.ok.injEq, forall_eq', ← normalizePublicKeyPem_eq_none_iff]
      rw [← Option.ne_none_iff_exists', ne_eq, Option.map_eq_none_iff]

/-- Markers that are swapped, and markers that share dashes. -/
theorem normalizePublicKeyPem_panics :
    normalizePublicKeyPem "-----END PUBLIC KEY-----\nAAAA\n-----BEGIN PUBLIC KEY-----".toList = none ∧
    normalizePublicKeyPem "-----BEGIN CERTIFICATE-----END CERTIFICATE-----".toList = none := by
  decide

/-! ## A key between two markers -/

/-- Between markers, under whatever labels, the only other word of a marker is the text
itself. -/
def Framed (m : Str) : Prop :=
  ∀ (l k : PemLabel) (u X : Str), IsBegin X ∨ IsEnd X →
    u ++ fenced '-' 5 X <+: fenced '-' 5 (beginWord l) ++ (m ++ fenced '-' 5 (endWord k)) →
    (u = [] ∧ X = beginWord l) ∨ (u = fence '-' 5 ++ beginWord l ∧ X = m) ∨
      (u = fenced '-' 5 (beginWord l) ++ m ∧ X = endWord k)

theorem core_of_marker {X : Str} (h : IsBegin X ∨ IsEnd X) : Core '-' X :=
  h.elim (core_of_isBegin X) (core_of_isEnd X)

theorem framed_of_free {m : Str} (hm : '-' ∉ m) : Framed m := fun l k _ _ hX hu =>
  fenced_pair_cases (by decide) (core_of_marker hX) (core_beginWord l) (core_endWord k) hm hu

/-- Every label has a blank, and none has a line end. -/
theorem framed_lines {m : Str} (hm : ' ' ∉ m) : Framed (m ++ ['\n']) := by
  intro l k u X hX hu
  have hword : ' ' ∈ X ∧ '\n' ∉ X := by
    rcases hX with ⟨label, rfl⟩ | ⟨label, rfl⟩ <;> cases label <;> exact ⟨by decide, by decide⟩
  have hcases := fenced_lines_cases (by decide) (core_of_marker hX) (core_beginWord l) (core_endWord k) hword.2
    (by decide) hword.1 hm hu
  exact hcases.imp_right .inr

theorem relabelBegin_framed {m : Str} (hm : Framed m) {l k : PemLabel}
    (hbegin : l = .publicKey → m ≠ beginWord .certificate) :
    replaceAll (beginMarker .certificate) (beginMarker .publicKey) (beginMarker l ++ (m ++ endMarker k)) =
      beginMarker .publicKey ++ (m ++ endMarker k) := by
  rw [beginMarker_eq, beginMarker_eq, beginMarker_eq, endMarker_eq]
  cases l with
  | certificate =>
    rw [replaceAll_append (fenced_ne_nil (core_beginWord _)), replaceAll_of_not_occurs]
    intro u hu
    have hlen : (fenced '-' 5 (beginWord .certificate) ++ u).length = 27 + u.length := by
      rw [List.length_append]
      rfl
    rcases hm .certificate k (fenced '-' 5 (beginWord .certificate) ++ u) _ (.inl (isBegin_beginWord _))
      (by rwa [List.append_assoc, List.prefix_append_right_inj]) with ⟨hnil, -⟩ | ⟨hshort, -⟩ | ⟨-, heq⟩
    · rw [hnil, List.length_nil] at hlen
      omega
    · rw [hshort] at hlen
      have hshorter : (fence '-' 5 ++ beginWord .certificate).length = 22 := rfl
      omega
    · exact beginWord_ne_endWord _ _ heq
  | publicKey =>
    rw [replaceAll_of_not_occurs]
    intro u hu
    rcases hm .publicKey k u _ (.inl (isBegin_beginWord _)) hu with ⟨-, heq⟩ | ⟨-, heq⟩ | ⟨-, heq⟩
    · exact absurd heq (by decide)
    · exact hbegin rfl heq.symm
    · exact beginWord_ne_endWord _ _ heq

theorem relabelEnd_framed {m : Str} (hm : Framed m) {k : PemLabel} (hend : m ≠ endWord .certificate) :
    replaceAll (endMarker .certificate) (endMarker .publicKey) (beginMarker .publicKey ++ (m ++ endMarker k)) =
      beginMarker .publicKey ++ (m ++ endMarker .publicKey) := by
  rw [beginMarker_eq, endMarker_eq, endMarker_eq, endMarker_eq]
  have hcertificate {u : Str} (hu : u ++ fenced '-' 5 (endWord .certificate) <+:
      fenced '-' 5 (beginWord .publicKey) ++ (m ++ fenced '-' 5 (endWord k))) :
      u = fenced '-' 5 (beginWord .publicKey) ++ m ∧ endWord .certificate = endWord k := by
    rcases hm .publicKey k u _ (.inr (isEnd_endWord _)) hu with ⟨-, heq⟩ | ⟨-, heq⟩ | hlast
    · exact absurd heq.symm (beginWord_ne_endWord _ _)
    · exact absurd heq.symm hend
    · exact hlast
  cases k with
  | certificate =>
    have hfirst : FirstAt (fenced '-' 5 (endWord .certificate)) (fenced '-' 5 (beginWord .publicKey) ++ m)
        ((fenced '-' 5 (beginWord .publicKey) ++ m) ++ (fenced '-' 5 (endWord .certificate) ++ [])) := by
      rw [List.append_nil]
      refine ⟨List.prefix_rfl, fun u hu => ?_⟩
      rw [List.append_assoc] at hu
      rw [(hcertificate hu).1]
    have hreplaced := replaceAll_first (fenced_ne_nil (core_endWord _)) hfirst (fenced '-' 5 (endWord .publicKey))
    rw [List.append_nil, List.append_assoc] at hreplaced
    rw [hreplaced, List.append_assoc]
    exact congrArg (_ ++ ·) (congrArg (_ ++ ·) (List.append_nil _))
  | publicKey =>
    rw [replaceAll_of_not_occurs]
    intro u hu
    exact absurd (hcertificate hu).2 (by decide)

/-- The labels are exchanged, unless the text is taken for one. -/
theorem relabel_framed {m : Str} (hm : Framed m) {l k : PemLabel} (hend : m ≠ endWord .certificate)
    (hbegin : l = .publicKey → m ≠ beginWord .certificate) :
    relabel (beginMarker l ++ (m ++ endMarker k)) = beginMarker .publicKey ++ (m ++ endMarker .publicKey) := by
  rw [relabel, relabelBegin_framed hm hbegin, relabelEnd_framed hm hend]

theorem pemBody_framed {m : Str} (hm : Framed m) (hend : m ≠ endWord .publicKey) :
    pemBody (beginMarker .publicKey ++ (m ++ endMarker .publicKey)) = some (m.filter fun c => !isWhiteSpace c) := by
  have hfirst : FirstAt (endMarker .publicKey) ([] ++ (beginMarker .publicKey ++ m))
      (beginMarker .publicKey ++ (m ++ endMarker .publicKey)) := by
    refine ⟨by rw [List.nil_append, List.append_assoc], fun u hu => ?_⟩
    rw [beginMarker_eq, endMarker_eq] at hu
    rcases hm .publicKey .publicKey u _ (.inr (isEnd_endWord _)) hu with ⟨-, heq⟩ | ⟨-, heq⟩ | ⟨rfl, -⟩
    · exact absurd heq.symm (beginWord_ne_endWord _ _)
    · exact absurd heq.symm hend
    · rw [List.nil_append, beginMarker_eq]
  exact pemBody_of_first (.nil (List.prefix_append _ _)) hfirst

/-- The characters of a key, without the whitespace between them. -/
def keyOf (w : Str) : Str := w.filter fun c => !isWhiteSpace c

theorem keyOf_filter (w : Str) : keyOf (w.filter (· ≠ '\r')) = keyOf w := by
  rw [keyOf, keyOf, List.filter_filter]
  refine List.filter_congr fun c _ => ?_
  by_cases hc : c = '\r'
  · subst hc
    rfl
  · simp [hc]

/-- Only the carriage returns between the markers make a difference. -/
theorem prepare_framed {front w back : Str} (hfront : ∀ c ∈ front, isWhiteSpace c = true)
    (hback : ∀ c ∈ back, isWhiteSpace c = true) (l k : PemLabel) :
    prepare (front ++ (beginMarker l ++ (w ++ (endMarker k ++ back)))) =
      relabel (beginMarker l ++ (w.filter (· ≠ '\r') ++ endMarker k)) := by
  obtain ⟨b, hb⟩ : ∃ b, beginMarker l = '-' :: b := by cases l <;> exact ⟨_, rfl⟩
  obtain ⟨e, he⟩ : ∃ e, endMarker k = e ++ ['-'] := by
    cases k <;> exact ⟨_, (List.dropLast_append_getLast (by decide)).symm⟩
  have htrim : trim (front ++ (beginMarker l ++ (w ++ (endMarker k ++ back)))) =
      beginMarker l ++ (w ++ endMarker k) := by
    have hdash : isWhiteSpace '-' = false := by decide
    have hlast : back.rdropWhile isWhiteSpace = [] := List.rdropWhile_eq_nil_iff.mpr hback
    have hkept := trim_append (l := '-' :: (b ++ (w ++ e))) (m := back) hfront (x := '-')
      (fun c hc => Option.some.inj hc ▸ hdash) hdash
    rw [hlast] at hkept
    rw [hb, he]
    simpa using hkept
  have hbegin : (beginMarker l).filter (· ≠ '\r') = beginMarker l := by cases l <;> decide
  have hend : (endMarker k).filter (· ≠ '\r') = endMarker k := by cases k <;> decide
  rw [prepare, htrim, List.filter_append, List.filter_append, hbegin, hend]

/-! ## The text that is made -/

theorem utf8_ascii {s : Str} (h : ∀ c ∈ s, c.toNat < 128) : utf8 s = s.map fun c => c.val.toUInt8 := by
  induction s with
  | nil => rfl
  | cons c s ih =>
    rw [List.forall_mem_cons] at h
    rw [utf8, List.flatMap_cons, utf8EncodeChar_ascii h.1, ← utf8, ih h.2, List.map_cons, List.singleton_append]

/-- The lines of a body in ASCII. -/
theorem pemText_ascii {body : Str} (h : ∀ c ∈ body, c.toNat < 128) : pemText body =
    beginMarker .publicKey ++ (['\n'] ++ ((chunks 64 body).flatMap (fun line => line ++ ['\n']) ++
      (endMarker .publicKey ++ ['\n']))) := by
  have hlines : (chunks 64 (utf8 body)).flatMap (fun chunk => (fromUtf8 chunk).getD [] ++ ['\n']) =
      (chunks 64 body).flatMap fun line => line ++ ['\n'] := by
    rw [utf8_ascii h, chunks_map, List.flatMap_map]
    refine List.flatMap_congr fun line hline => ?_
    rw [← utf8_ascii fun c hc => h c (mem_of_mem_chunks hline hc), fromUtf8_utf8, Option.getD_some]
  rw [pemText, hlines]

theorem newline_flatMap (lines : List Str) :
    ['\n'] ++ lines.flatMap (fun line => line ++ ['\n']) = lines.flatMap (fun line => '\n' :: line) ++ ['\n'] := by
  induction lines with
  | nil => rfl
  | cons line lines ih =>
    rw [List.flatMap_cons, List.flatMap_cons, List.append_assoc, List.append_assoc, ih]
    rfl

theorem keyOf_flatMap (lines : List Str) (h : ∀ c ∈ lines.flatten, isWhiteSpace c = false) :
    keyOf (lines.flatMap fun line => '\n' :: line) = lines.flatten := by
  induction lines with
  | nil => rfl
  | cons line lines ih =>
    rw [List.flatten_cons] at h
    have hline : keyOf line = line := List.filter_eq_self.mpr fun c hc => by
      rw [h c (List.mem_append_left _ hc)]
      rfl
    have hrest := ih fun c hc => h c (List.mem_append_right _ hc)
    rw [keyOf, List.flatMap_cons, List.filter_append, List.filter_cons_of_neg (by decide), List.flatten_cons, ← keyOf,
      ← keyOf, hline, hrest]

/-- The body is found again in the text that is made of it. -/
theorem pemBody_pemText {body : Str} (hascii : ∀ c ∈ body, c.toNat < 128)
    (hblack : ∀ c ∈ body, isWhiteSpace c = false) : pemBody (prepare (pemText body)) = some body := by
  have hflatten : (chunks 64 body).flatten = body := flatten_chunks (by decide) body
  generalize hm : (chunks 64 body).flatMap (fun line => '\n' :: line) = m
  have hmem : ∀ c ∈ m, c = '\n' ∨ c ∈ body := by
    intro c hc
    rw [← hm, List.mem_flatMap] at hc
    obtain ⟨line, hline, hc⟩ := hc
    rcases List.mem_cons.mp hc with rfl | hc
    · exact .inl rfl
    · exact .inr (mem_of_mem_chunks hline hc)
  have hspace : ' ' ∉ m := fun h => by
    rcases hmem _ h with h | h
    · exact absurd h (by decide)
    · exact absurd (hblack _ h) (by decide)
  have hcr : (m ++ ['\n']).filter (· ≠ '\r') = m ++ ['\n'] := by
    refine List.filter_eq_self.mpr fun c hc => decide_eq_true ?_
    rintro rfl
    rcases List.mem_append.mp hc with hc | hc
    · rcases hmem _ hc with h | h
      · exact absurd h (by decide)
      · exact absurd (hblack _ h) (by decide)
    · exact absurd hc (by decide)
  have htext : pemText body =
      [] ++ (beginMarker .publicKey ++ ((m ++ ['\n']) ++ (endMarker .publicKey ++ ['\n']))) := by
    rw [pemText_ascii hascii, ← List.append_assoc ['\n'], newline_flatMap, hm, List.nil_append]
  have hline {X : Str} (hX : '\n' ∉ X) : m ++ ['\n'] ≠ X := fun h => hX (h ▸ by simp)
  have hframed := framed_lines hspace
  have hkey : keyOf (m ++ ['\n']) = body := by
    have hflat := keyOf_flatMap (chunks 64 body) (by rwa [hflatten])
    rw [keyOf, List.filter_append, ← keyOf, ← hm, hflat, hflatten]
    exact List.append_nil _
  rw [htext, prepare_framed (List.forall_mem_nil _) (List.forall_mem_singleton.mpr (by decide)), hcr,
    relabel_framed hframed (hline (by decide)) fun _ => hline (by decide),
    pemBody_framed hframed (hline (by decide)), ← keyOf, hkey]

theorem mem_of_pemBody {s body : Str} (h : pemBody s = some body) {c : Char} (hc : c ∈ body) :
    c ∈ s ∧ isWhiteSpace c = false := by
  rw [pemBody] at h
  split at h
  · obtain ⟨slice, hslice, rfl⟩ := Option.map_eq_some_iff.mp h
    rw [List.mem_filter, Bool.not_eq_true'] at hc
    exact ⟨mem_of_cutRange hslice hc.1, hc.2⟩
  · obtain rfl := Option.some.inj h
    rw [List.mem_filter, Bool.and_eq_true, Bool.not_eq_true'] at hc
    exact ⟨hc.1, hc.2.1⟩

/-- Preparing puts nothing into a text but markers. -/
theorem ascii_prepare {pem : Str} (h : ∀ c ∈ pem, c.toNat < 128) : ∀ c ∈ prepare pem, c.toNat < 128 := by
  have hmarkers : ∀ c ∈ beginMarker .publicKey ++ endMarker .publicKey, c.toNat < 128 := by
    have hall : (beginMarker .publicKey ++ endMarker .publicKey).all (fun c => c.toNat < 128) = true := by decide
    exact fun c hc => of_decide_eq_true (List.all_eq_true.mp hall c hc)
  obtain ⟨front, back, hpem, -, -⟩ := exists_append_trim pem
  intro c hc
  rw [prepare, relabel, replaceAll] at hc
  rcases mem_of_mem_replaceFrom hc with hc | hc
  · rw [replaceAll] at hc
    rcases mem_of_mem_replaceFrom hc with hc | hc
    · refine h c ?_
      rw [hpem]
      exact List.mem_append_right _ (List.mem_append_left _ (List.mem_of_mem_filter hc))
    · exact hmarkers c (List.mem_append_left _ hc)
  · exact hmarkers c (List.mem_append_right _ hc)

theorem normalizePublicKeyPem_idempotent {pem out : Str} (h : ∀ c ∈ pem, c.toNat < 128)
    (hout : normalizePublicKeyPem pem = some out) : normalizePublicKeyPem out = some out := by
  obtain ⟨body, hbody, rfl⟩ := Option.map_eq_some_iff.mp hout
  rw [normalizePublicKeyPem, pemBody_pemText (fun c hc => ascii_prepare h c (mem_of_pemBody hbody hc).1)
    fun c hc => (mem_of_pemBody hbody hc).2, Option.map_some]

/-! ## Keeping the key -/

/-- Base64 characters, and whitespace anywhere between them. -/
def Base64Text (w : Str) : Prop := ∀ c ∈ w, (c ∈ b64Alphabet ∨ c = '=') ∨ isWhiteSpace c = true

instance (w : Str) : Decidable (Base64Text w) :=
  decidable_of_iff (w.all fun c => decide ((c ∈ b64Alphabet ∨ c = '=') ∨ isWhiteSpace c = true)) (by
    simp only [List.all_eq_true, decide_eq_true_eq, Base64Text])

/-- The key, with its whitespace, reads like the label of a marker: of one that ends a key,
or of one that `PUBLIC KEY` is put into. -/
def Misread (l : PemLabel) (w : Str) : Prop :=
  (∃ label, w.filter (· ≠ '\r') = endWord label) ∨ l = .publicKey ∧ w.filter (· ≠ '\r') = beginWord .certificate

theorem dash_notMem_of_base64 {w : Str} (hw : Base64Text w) : '-' ∉ w := by
  intro hmem
  rcases hw _ hmem with h | h
  · exact absurd h (by decide)
  · exact absurd h (by decide)

theorem ascii_keyOf {w : Str} (hw : Base64Text w) : ∀ c ∈ keyOf w, c.toNat < 128 := by
  intro c hc
  rw [keyOf, List.mem_filter, Bool.not_eq_true'] at hc
  rcases hw c hc.1 with h | h
  · exact b64_lt h
  · rw [h] at hc
    exact absurd hc.2 (by decide)

theorem keyOf_trim (w : Str) : keyOf (trim w) = keyOf w := by
  have hwhite {l : Str} (h : ∀ c ∈ l, isWhiteSpace c = true) : keyOf l = [] :=
    List.filter_eq_nil_iff.mpr fun c hc => by simp [h c hc]
  obtain ⟨front, back, hw, hfront, hback⟩ := exists_append_trim w
  conv_rhs => rw [hw]
  rw [keyOf, keyOf, List.filter_append, List.filter_append, ← keyOf, ← keyOf, ← keyOf, hwhite hfront, hwhite hback,
    List.nil_append, List.append_nil]

/-- Without a dash there is no marker. -/
theorem normalizePublicKeyPem_free {w : Str} (hw : '-' ∉ w) :
    normalizePublicKeyPem w = some (pemText (keyOf w)) := by
  have hfree : '-' ∉ (trim w).filter (· ≠ '\r') := fun h => by
    obtain ⟨front, back, heq, -, -⟩ := exists_append_trim w
    rw [heq] at hw
    exact hw (List.mem_append_right _ (List.mem_append_left _ (List.mem_of_mem_filter h)))
  have hnone {pat s : Str} (hpat : '-' ∈ pat) (hs : '-' ∉ s) (u : Str) : ¬ u ++ pat <+: s := fun h =>
    hs (h.subset (List.mem_append_right _ hpat))
  have hrelabel : prepare w = (trim w).filter (· ≠ '\r') := by
    rw [prepare, relabel, replaceAll_of_not_occurs _ (hnone (by decide) hfree),
      replaceAll_of_not_occurs _ (hnone (by decide) hfree)]
  have hbody : pemBody ((trim w).filter (· ≠ '\r')) = some (keyOf ((trim w).filter (· ≠ '\r'))) := by
    rw [pemBody, find, findFront_eq_none_iff.mpr (hnone (by decide) hfree), Option.map_none]
    refine congrArg some (List.filter_congr fun c hc => ?_)
    have hne : c ≠ '-' := fun h => hfree (h ▸ hc)
    simp [hne]
  rw [normalizePublicKeyPem, hrelabel, hbody, keyOf_filter, keyOf_trim, Option.map_some]

/-- A key that reads like a label is lost. -/
theorem pemBody_misread {l : PemLabel} {w : Str} (h : Misread l w) (k : PemLabel) :
    pemBody (relabel (beginMarker l ++ (w.filter (· ≠ '\r') ++ endMarker k))) = none ∨
      keyOf w = "BEGINCERTIFICATE".toList ∧
        pemBody (relabel (beginMarker l ++ (w.filter (· ≠ '\r') ++ endMarker k))) = some "BEGINPUBLICKEY".toList := by
  rcases h with ⟨label, h⟩ | ⟨rfl, h⟩
  · rw [h]
    cases l <;> cases k <;> cases label <;> exact .inl (by decide)
  · rw [← keyOf_filter, h]
    cases k <;> exact .inr ⟨by decide, by decide⟩

/-- A key between markers is kept, unless it is taken for a label. -/
theorem normalizePublicKeyPem_framed {w : Str} (hw : Base64Text w) {l : PemLabel} (hmis : ¬ Misread l w) (k : PemLabel)
    {front back : Str} (hfront : ∀ c ∈ front, isWhiteSpace c = true) (hback : ∀ c ∈ back, isWhiteSpace c = true) :
    normalizePublicKeyPem (front ++ (beginMarker l ++ (w ++ (endMarker k ++ back)))) = some (pemText (keyOf w)) := by
  rw [Misread, not_or, not_exists, not_and] at hmis
  have hframed : Framed (w.filter (· ≠ '\r')) :=
    framed_of_free fun h => dash_notMem_of_base64 hw (List.mem_of_mem_filter h)
  rw [normalizePublicKeyPem, prepare_framed hfront hback, relabel_framed hframed (hmis.1 _) hmis.2,
    pemBody_framed hframed (hmis.1 _), ← keyOf, keyOf_filter, Option.map_some]

/-- Every label has a blank, and Base64 has none. -/
theorem normalizePublicKeyPem_b64Encode (der : Bytes) (l k : PemLabel) :
    normalizePublicKeyPem (beginMarker l ++ (b64Encode der ++ endMarker k)) = some (pemText (b64Encode der)) := by
  have hbase : Base64Text (b64Encode der) := fun c hc => .inl (mem_b64Encode hc)
  have hwhite : ∀ c ∈ b64Encode der, isWhiteSpace c = false := by
    have hall : (b64Alphabet ++ ['=']).all (fun c => !isWhiteSpace c) = true := by decide +kernel
    intro c hc
    have hmem : c ∈ b64Alphabet ++ ['='] := by simpa using mem_b64Encode hc
    simpa using List.all_eq_true.mp hall c hmem
  have hblank : ' ' ∉ (b64Encode der).filter (· ≠ '\r') := fun h =>
    absurd (hwhite _ (List.mem_of_mem_filter h)) (by decide)
  have hmis : ¬ Misread l (b64Encode der) := by
    rintro (⟨label, h⟩ | ⟨-, h⟩)
    · rw [h] at hblank
      cases label <;> exact hblank (by decide)
    · rw [h] at hblank
      exact hblank (by decide)
  have hkey : keyOf (b64Encode der) = b64Encode der :=
    List.filter_eq_self.mpr fun c hc => by rw [hwhite c hc]; rfl
  have hframed := normalizePublicKeyPem_framed hbase hmis k (List.forall_mem_nil _) (List.forall_mem_nil _)
  rw [hkey, List.append_nil] at hframed
  exact hframed

/-- The key is kept, in lines of at most 64 characters and whatever the labels and the
whitespace are, unless it is taken for a label. The text that is made is not changed again. -/
theorem normalizePublicKeyPem_keeps_key {w : Str} (hw : Base64Text w) :
    (∀ (l k : PemLabel) (front back : Str), (∀ c ∈ front, isWhiteSpace c = true) →
      (∀ c ∈ back, isWhiteSpace c = true) →
      (normalizePublicKeyPem (front ++ (beginMarker l ++ (w ++ (endMarker k ++ back)))) = some (pemText (keyOf w)) ↔
        ¬ Misread l w)) ∧
    normalizePublicKeyPem w = some (pemText (keyOf w)) ∧
    (∃ lines : List Str, lines.flatten = keyOf w ∧ (∀ line ∈ lines, line.length ≤ 64) ∧
      pemText (keyOf w) = beginMarker .publicKey ++ (['\n'] ++ (lines.flatMap (fun line => line ++ ['\n']) ++
        (endMarker .publicKey ++ ['\n'])))) ∧
    ∀ pem out, (∀ c ∈ pem, c.toNat < 128) → normalizePublicKeyPem pem = some out →
      normalizePublicKeyPem out = some out := by
  have hlines := pemText_ascii (ascii_keyOf hw)
  refine ⟨fun l k front back hfront hback => ?_, normalizePublicKeyPem_free (dash_notMem_of_base64 hw),
    ⟨chunks 64 (keyOf w), flatten_chunks (by decide) _, fun line => length_le_of_mem_chunks, hlines⟩,
    fun pem out h => normalizePublicKeyPem_idempotent h⟩
  refine ⟨fun hout hmis => ?_, fun hmis => normalizePublicKeyPem_framed hw hmis k hfront hback⟩
  rw [normalizePublicKeyPem, prepare_framed hfront hback] at hout
  obtain ⟨body, hbody, htext⟩ := Option.map_eq_some_iff.mp hout
  rcases pemBody_misread hmis k with hnone | ⟨hkey, hother⟩
  · rw [hnone] at hbody
    cases hbody
  · obtain rfl := Option.some.inj (hother.symm.trans hbody)
    rw [hkey] at htext
    exact absurd (congrArg List.length htext) (by decide)

theorem normalizePublicKeyPem_keeps_key_quad :
    normalizePublicKeyPem "-----BEGIN CERTIFICATE-----\nAA\r\nA=\n-----END PUBLIC KEY-----".toList =
      some (pemText "AAA=".toList) :=
  ((normalizePublicKeyPem_keeps_key (w := "\nAA\r\nA=\n".toList) (by decide)).1 .certificate .publicKey [] []
    (List.forall_mem_nil _) (List.forall_mem_nil _)).mpr (by
      rintro (⟨label, h⟩ | ⟨h, -⟩)
      · cases label <;> exact absurd h (by decide)
      · exact absurd h (by decide))

/-- A key of twelve characters that is taken for the end marker, and one of sixteen that is
relabelled. -/
theorem normalizePublicKeyPem_loses_key :
    Base64Text "END PUBLIC KEY".toList ∧
    normalizePublicKeyPem "-----BEGIN PUBLIC KEY-----END PUBLIC KEY-----END PUBLIC KEY-----".toList = none ∧
    Base64Text "BEGIN CERTIFICATE".toList ∧
    normalizePublicKeyPem "-----BEGIN PUBLIC KEY-----BEGIN CERTIFICATE-----END CERTIFICATE-----".toList =
      some (pemText "BEGINPUBLICKEY".toList) := by
  decide

end Lox
