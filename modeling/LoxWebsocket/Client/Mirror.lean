import LoxWebsocket.Framework.Run
import LoxWebsocket.Auth.Binding
import LoxWebsocket.Auth.StoreHistory
import LoxWebsocket.Client.State

/-!
# The token in memory and the token in the file

A client restores the token of an earlier run once, and then sets and clears its
token; each change goes to the store. What the file gives back is the token in
memory after every one of them (`saved_token_mirrors_iff`), except for a token
with a line break: it is in memory, and the store refuses it and keeps the one
before.
-/

namespace Lox

/-- A change of the token. -/
inductive TokenOp
  | set (token : LxToken)
  | clear

namespace SharedState

def change (shared : SharedState FileTokenStore) : TokenOp → Option (SharedState FileTokenStore)
  | .set token => some (shared.setToken token)
  | .clear => some shared.clearToken

/-- The token the store has for this identity. -/
def saved (shared : SharedState FileTokenStore) : Option LxToken :=
  shared.persist.bind fun p => p.store.load p.binding

/-- What is saved is the token in memory, if there is one. -/
def Mirrors (shared : SharedState FileTokenStore) : Prop :=
  shared.saved = if shared.token.isEmpty then none else some shared.token

/-- The store is a file on a disk without faults, for the identity `binding`. -/
def Backed (binding : Str) (shared : SharedState FileTokenStore) : Prop :=
  ∃ store : FileTokenStore, shared.persist = some ⟨store, binding⟩ ∧ store.disk.Sound ∧
    FilePaths.names store.path = true

/-- A token the store takes, or has already. -/
def Kept (shared : SharedState FileTokenStore) : TokenOp → Prop
  | .set token => token.isEmpty = true ∨ NoBreak token.token ∨ shared.saved = some token
  | .clear => True

variable {shared shared' : SharedState FileTokenStore} {binding : Str}

theorem restoreToken_valid {store : FileTokenStore} {token found : LxToken} {now : UInt64}
    (hload : store.load binding = some found) (hne : found.isEmpty = false)
    (hvalid : 0 < found.secondsToExpire now) :
    restoreToken ⟨token, some ⟨store, binding⟩⟩ now = ⟨found, some ⟨store, binding⟩⟩ := by
  have hnot : ¬ (found.isEmpty = true ∨ found.secondsToExpire now ≤ 0) := by
    rw [hne, Int64.le_iff_toInt_le, not_or, not_le]
    exact ⟨Bool.false_ne_true, Int64.lt_iff_toInt_lt.mp hvalid⟩
  have hload' : TokenStore.load store binding = some found := hload
  simp only [restoreToken, hload', if_neg hnot]

/-- The token of an earlier run is taken over, or removed from the store. -/
theorem restoreToken_mirrors (h : shared.Backed binding) (hempty : shared.token.isEmpty = true) (now : UInt64) :
    (shared.restoreToken now).Backed binding ∧ (shared.restoreToken now).Mirrors := by
  obtain ⟨token, persist⟩ := shared
  obtain ⟨store, rfl, hsound, hnames⟩ := h
  rw [restoreToken]
  dsimp only
  split
  · rename_i hload
    exact ⟨⟨store, rfl, hsound, hnames⟩, hload.trans (if_pos hempty).symm⟩
  · rename_i found hload
    split_ifs with hexpired
    · obtain ⟨hsound', hnone⟩ := FileTokenStore.clear_sound hsound binding
      refine ⟨⟨_, rfl, hsound', hnames⟩, ?_⟩
      exact (FileTokenStore.load_of_readRecord hnone).trans (if_pos hempty).symm
    · refine ⟨⟨store, rfl, hsound, hnames⟩, ?_⟩
      have hne : ¬ found.isEmpty = true := fun he => hexpired (.inl he)
      exact hload.trans (if_neg hne).symm

/-- After a change the store has the token in memory if and only if the token is
one it takes, or has already. -/
theorem change_mirrors (hbinding : NoBreak binding) {op : TokenOp} (h : shared.Backed binding)
    (hop : shared.change op = some shared') : shared'.Backed binding ∧ (shared'.Mirrors ↔ shared.Kept op) := by
  obtain ⟨token, persist⟩ := shared
  obtain ⟨store, rfl, hsound, hnames⟩ := h
  cases op with
  | clear =>
    cases hop
    obtain ⟨hsound', hnone⟩ := FileTokenStore.clear_sound hsound binding
    exact ⟨⟨_, rfl, hsound', hnames⟩, iff_of_true (FileTokenStore.load_of_readRecord hnone) trivial⟩
  | set token' =>
    have hset : setToken ⟨token, some ⟨store, binding⟩⟩ token' =
        ⟨token', some ⟨store.save binding token', binding⟩⟩ := rfl
    cases hop
    rw [hset]
    cases hne : token'.isEmpty with
    | true =>
      have hclear : store.save binding token' = store.clear binding := if_pos hne
      obtain ⟨hsound', hnone⟩ := FileTokenStore.clear_sound hsound binding
      rw [hclear]
      refine ⟨⟨_, rfl, hsound', hnames⟩, iff_of_true ?_ (.inl hne)⟩
      exact (FileTokenStore.load_of_readRecord hnone).trans (if_pos hne).symm
    | false =>
      have hif : (if token'.isEmpty then none else some token') = some token' := by
        rw [hne]
        rfl
      by_cases htoken : NoBreak token'.token
      · obtain ⟨hsound', hread⟩ := FileTokenStore.save_sound hsound hnames hbinding htoken hne
        have hpath := FileTokenStore.path_save store binding token'
        refine ⟨⟨_, rfl, hsound', hpath.symm ▸ hnames⟩, iff_of_true ?_ (.inr (.inl htoken))⟩
        exact (FileTokenStore.load_eq_some.mpr hread).trans hif.symm
      · -- the store refuses the token, and has what it had
        rw [FileTokenStore.save_refused hne htoken]
        refine ⟨⟨store, rfl, hsound, hnames⟩, ?_⟩
        have hkept : Kept ⟨token, some ⟨store, binding⟩⟩ (.set token') ↔ store.load binding = some token' := by
          simp only [Kept, hne, htoken, Bool.false_eq_true, false_or]
          exact Iff.rfl
        rw [hkept, ← hif]
        exact Iff.rfl

theorem run_change (shared : SharedState FileTokenStore) (ops : List TokenOp) :
    ∃ last, run change shared ops = some last := by
  induction ops generalizing shared with
  | nil => exact ⟨shared, rfl⟩
  | cons op ops ih =>
    cases op with
    | set token => exact ih (shared.setToken token)
    | clear => exact ih shared.clearToken

end SharedState

open SharedState

/-- The token in the file is the token in memory, after restoring it and after
every change, if and only if every token that is set is empty, has no line break
or is saved already. -/
theorem saved_token_mirrors_iff (store : FileTokenStore) (hsound : store.disk.Sound)
    (hnames : FilePaths.names store.path = true) {binding : Str} (hbinding : NoBreak binding) (now : UInt64)
    (ops : List TokenOp) :
    (∀ ops' shared, ops' <+: ops →
        run change (restoreToken ⟨LxToken.default, some ⟨store, binding⟩⟩ now) ops' = some shared →
        shared.Mirrors) ↔
      Along change Kept (restoreToken ⟨LxToken.default, some ⟨store, binding⟩⟩ now) ops := by
  have hfresh : Backed binding ⟨LxToken.default, some ⟨store, binding⟩⟩ := ⟨store, rfl, hsound, hnames⟩
  obtain ⟨hbacked, hmirrors⟩ := restoreToken_mirrors hfresh rfl now
  generalize restoreToken (⟨LxToken.default, some ⟨store, binding⟩⟩ : SharedState FileTokenStore) now = start at *
  obtain ⟨last, hlast⟩ := run_change start ops
  have hstep {s s' : SharedState FileTokenStore} {op : TokenOp} (hs : s.Backed binding ∧ s.Mirrors)
      (h : s.change op = some s') : s'.Backed binding ∧ s'.Mirrors ↔ s.Kept op := by
    obtain ⟨hb, hm⟩ := change_mirrors hbinding hs.1 h
    exact (and_iff_right hb).trans hm
  rw [← forall_prefix_iff_along hstep ⟨hbacked, hmirrors⟩ hlast]
  refine ⟨fun h ops' shared hp hrun => ⟨?_, h ops' shared hp hrun⟩,
    fun h ops' shared hp hrun => (h ops' shared hp hrun).2⟩
  exact run_inv (fun hb hc => (change_mirrors hbinding hb hc).1) hbacked hrun

/-- A token is acquired and given up again. The binding is hexadecimal, and so without
a line break. -/
theorem saved_token_mirrors_iff_renewed :
    Along change Kept
        (restoreToken ⟨LxToken.default, some ⟨sampleStore, sampleIdentity.binding sampleDigests⟩⟩ 0)
        [.set savedToken, .clear] ∧
      ∀ ops' shared, ops' <+: [.set savedToken, .clear] →
        run change (restoreToken ⟨LxToken.default, some ⟨sampleStore, sampleIdentity.binding sampleDigests⟩⟩ 0)
          ops' = some shared →
        shared.Mirrors := by
  have hbinding : NoBreak (sampleIdentity.binding sampleDigests) := noBreak_tokenBinding _ _ _ _
  have halong : Along change Kept
      (restoreToken ⟨LxToken.default, some ⟨sampleStore, sampleIdentity.binding sampleDigests⟩⟩ 0)
      [.set savedToken, .clear] :=
    ⟨.inr (.inl (by decide)), fun _ _ => ⟨trivial, fun _ _ => trivial⟩⟩
  exact ⟨halong, (saved_token_mirrors_iff sampleStore sampleStore_sound (by decide) hbinding 0 _).mpr halong⟩

/-- A client that starts with the token of an earlier run. -/
def resumed : SharedState FileTokenStore :=
  restoreToken ⟨LxToken.default, some ⟨sampleStore.save "binding-a".toList savedToken, "binding-a".toList⟩⟩ 1231000000

/-- A token with a line break is in memory, and the one before it in the file. -/
theorem broken_token_not_mirrored :
    resumed.token = savedToken ∧ resumed.saved = some savedToken ∧
      (resumed.setToken forgedToken).token = forgedToken ∧ (resumed.setToken forgedToken).saved = some savedToken := by
  have hload : (sampleStore.save "binding-a".toList savedToken).load "binding-a".toList = some savedToken :=
    FileTokenStore.load_eq_some.mpr sampleStore_saved.2
  have hsame : (sampleStore.save "binding-a".toList savedToken).save "binding-a".toList forgedToken =
      sampleStore.save "binding-a".toList savedToken := FileTokenStore.save_refused rfl (by decide)
  unfold resumed
  generalize sampleStore.save "binding-a".toList savedToken = store at hload hsame
  rw [restoreToken_valid hload (by decide) (by decide)]
  refine ⟨rfl, hload, rfl, ?_⟩
  exact (congrArg (fun st => st.load "binding-a".toList) hsame).trans hload

end Lox
