import CcReminder.Commands.Channels
import CcReminder.Lib.Reach

/-!
# Channels and their credentials

A reference names the channel, so the prior reference of a channel and its new one are the same. A
command that stores a payload overwrites the one that was there; when it then deletes "the prior"
payload, or takes its own payload back, the channel is left without any.
-/

set_option autoImplicit true

namespace CcReminder

open Lib

/-! ## What the commands do -/

section

variable {sv : CommandServices} {s s' : CoreState}

theorem ofExcept_ok {r : Except AppError α} (h : Command.ofExcept r s = (.ok a, s')) :
    r = .ok a ∧ s' = s := by
  cases r with
  | error e => simp [Command.ofExcept] at h
  | ok b =>
    obtain ⟨rfl, rfl⟩ := by simpa [Command.ofExcept] using h
    exact ⟨rfl, rfl⟩

theorem ofExcept_error {r : Except AppError α} (h : Command.ofExcept r s = (.error e, s')) :
    s' = s := by
  cases r with
  | error e' =>
    obtain ⟨-, rfl⟩ := by simpa [Command.ofExcept] using h
    rfl
  | ok b => simp [Command.ofExcept] at h

theorem onStorage_run {x : Tx α} (h : onStorage x s = (r, s')) :
    x s.conn = (r, s'.conn) ∧ s'.credentials = s.credentials := by
  simp only [onStorage, Txn.step_run, Prod.mk.injEq] at h
  obtain ⟨rfl, rfl⟩ := h
  exact ⟨rfl, rfl⟩

theorem onCredentials_run {x : Keyring α} (h : onCredentials x s = (r, s')) :
    x s.credentials = (r, s'.credentials) ∧ s'.conn = s.conn := by
  simp only [onCredentials, Txn.step_run, Prod.mk.injEq] at h
  obtain ⟨rfl, rfl⟩ := h
  exact ⟨rfl, rfl⟩

/-- The tables and the entries are the same in both. -/
def CoreState.Same (s s' : CoreState) : Prop :=
  s'.conn.db = s.conn.db ∧ s'.credentials.entries = s.credentials.entries

theorem CoreState.Same.refl (s : CoreState) : s.Same s := ⟨rfl, rfl⟩

theorem CoreState.Same.trans {s₁ s₂ s₃ : CoreState} (h₁ : s₁.Same s₂) (h₂ : s₂.Same s₃) :
    s₁.Same s₃ := ⟨h₂.1.trans h₁.1, h₂.2.trans h₁.2⟩

theorem same_onStorage {x : Tx α} (hx : ReadsOnly x) (h : onStorage x s = (r, s')) : s.Same s' := by
  obtain ⟨hrun, hcredentials⟩ := onStorage_run h
  refine ⟨?_, by rw [hcredentials]⟩
  rw [← hx s.conn, hrun]

/-- A payload is put under the reference of the channel, if it is put at all. -/
theorem put_run (h : (onCredentials (CredentialStore.put recordSize channelId payload)).mapError f s =
    (.ok ref, s')) :
    s.credentials.Accepts recordSize payload ∧ ref = credentialReference channelId ∧
      s' = { s with credentials := s.credentials.stored channelId payload } := by
  obtain ⟨hrun, hconn⟩ := onCredentials_run (Txn.mapError_ok_iff.mp h)
  obtain ⟨haccepts, href, hstore⟩ := CredentialStore.put_ok hrun
  refine ⟨haccepts, href, ?_⟩
  rw [← hstore, ← hconn]

theorem same_put (h : (onCredentials (CredentialStore.put recordSize channelId payload)).mapError f s =
    (.error e, s')) : s.Same s' := by
  obtain ⟨e', h⟩ := Txn.mapError_error h
  obtain ⟨hrun, hconn⟩ := onCredentials_run h
  exact ⟨by rw [hconn], CredentialStore.put_error hrun⟩

theorem same_saveChannelId (h : CommandServices.saveChannelId input s = (r, s')) :
    s.Same s' ∧ s'.credentials = s.credentials := by
  unfold CommandServices.saveChannelId at h
  cases hid : input.channelId with
  | none =>
    simp only [hid] at h
    exact ⟨same_onStorage (ReadsOnly.draw.bind fun _ => ReadsOnly.pure _) h, (onStorage_run h).2⟩
  | some text =>
    simp only [hid] at h
    rcases r with e | channelId
    · rw [ofExcept_error h]
      exact ⟨.refl s, rfl⟩
    · rw [(ofExcept_ok h).2]
      exact ⟨.refl s, rfl⟩

end

/-! ## Commands that store a payload -/

namespace CommandServices

variable (sv : CommandServices)

/-- A call of `save_channel` that stores a payload: it goes on to save a row with the record, on the
state `s₁`. -/
structure Saves (input : SaveChannelInput) (s : CoreState) (payload : CredentialPayload)
    (record : ChannelRecord) (s₁ : CoreState) : Prop where
  name : isNotBlank input.name
  record_eq : ∃ kind publicConfig,
    sv.validateCredentialInput input.credential = .ok (payload, kind, publicConfig) ∧
    record = savedRecord record.id input kind (applyPublicConfig publicConfig input.keywordPrefix)
      (credentialReference record.id)
  id_eq : saveChannelId input s = (.ok record.id, s₁)
  accepts : s.credentials.Accepts sv.recordSize payload

/-- What a call of `save_channel` does. -/
inductive SaveRun (input : SaveChannelInput) (s : CoreState) : Except AppError ChannelView →
    CoreState → Prop
  | refused {s' : CoreState} (hsame : s.Same s') : SaveRun input s (.error e) s'
  | saved {s' s₁ : CoreState} (hsaves : sv.Saves input s payload record s₁)
    (hdb : ∃ now, s'.conn.db =
      { s.conn.db with channels := s.conn.db.channels.upsert (record.toRow now) })
    (hentries : s'.credentials.entries =
      Function.update s.credentials.entries (channelUsername record.id) (some payload)) :
    SaveRun input s (.ok (ChannelView.fromRecord record true)) s'
  | undone {s' s₁ : CoreState} (hsaves : sv.Saves input s payload record s₁)
    (hrefused : ¬s₁.conn.Admits record) (hdb : s'.conn.db = s.conn.db)
    (hentries : s'.credentials.entries = s.credentials.takenBack record.id payload) :
    SaveRun input s (.error e) s'

theorem saveChannelImpl_run (h : sv.saveChannelImpl input s = (r, s')) : sv.SaveRun input s r s' := by
  unfold saveChannelImpl at h
  split at h
  · cases h
    exact .refused (.refl s)
  rename_i hname
  rcases Txn.bind_cases h with ⟨e, hx, rfl⟩ | ⟨⟨payload, kind, publicConfig⟩, s₀, hvalid, h₁⟩
  · rw [ofExcept_error hx]
    exact .refused (.refl s)
  obtain ⟨hvalid, hs₀⟩ := ofExcept_ok hvalid
  rw [hs₀] at h₁
  dsimp only at h₁
  rcases Txn.bind_cases h₁ with ⟨e, hx, rfl⟩ | ⟨channelId, s₁, hid, h₂⟩
  · exact .refused (same_saveChannelId hx).1
  obtain ⟨hsame, hcredentials⟩ := same_saveChannelId hid
  rcases Txn.bind_cases h₂ with ⟨e, hx, rfl⟩ | ⟨ref, s₂, hput, h₃⟩
  · exact .refused (hsame.trans (same_put hx))
  obtain ⟨haccepts, rfl, hs₂⟩ := put_run hput
  rw [hcredentials] at haccepts hs₂
  obtain ⟨saved, s₃, hsave, h₄⟩ := (Txn.bind_cases h₃).resolve_left (by rintro ⟨e, hx, -⟩; simp at hx)
  obtain ⟨_, ⟨⟩, hsave⟩ := Txn.result_eq hsave
  obtain ⟨hrow, hcredentials₂⟩ := onStorage_run hsave
  rw [hs₂] at hrow hcredentials₂
  have hsaves : sv.Saves input s payload (savedRecord channelId input kind
      (applyPublicConfig publicConfig input.keywordPrefix) (credentialReference channelId)) s₁ :=
    ⟨by simpa using hname, ⟨kind, publicConfig, hvalid, rfl⟩, hid, haccepts⟩
  rcases saved with e | u
  · obtain ⟨deleted, s₄, hdelete, h₅⟩ :=
      (Txn.bind_cases h₄).resolve_left (by rintro ⟨e, hx, -⟩; simp at hx)
    obtain ⟨_, ⟨⟩, hdelete⟩ := Txn.result_eq hdelete
    obtain ⟨hrun, hconn⟩ := onCredentials_run hdelete
    cases h₅
    refine .undone hsaves (fun hadmits => ?_) ?_ ?_
    · obtain ⟨c', hok⟩ := saveChannel_ok_iff.mpr hadmits
      rw [hok] at hrow
      cases hrow
    · rw [hconn, saveChannel_error hrow]
      exact hsame.1
    · have hentries := congrArg (fun x => x.2.entries) hrun
      rw [hcredentials₂] at hentries
      rw [← hentries, CredentialStore.delete_stored]
      rfl
  · cases h₄
    refine .saved hsaves ?_ ?_
    · obtain ⟨-, now, -, hdb⟩ := ensures_saveChannel hrow
      exact ⟨now, by rw [hdb, hsame.1]⟩
    · rw [hcredentials₂]
      rfl

/-- A call of `replace_channel_credential` that stores a payload: it goes on to save the updated
record over the row, on the state `s₁`. -/
structure Replaces (input : ReplaceCredentialInput) (s : CoreState) (payload : CredentialPayload)
    (updated : ChannelRecord) (s₁ : CoreState) : Prop where
  id_eq : parseUuid input.channelId = some updated.id
  record_eq : ∃ existing kind publicConfig,
    onStorage (getChannel updated.id) s = (.ok existing, s₁) ∧
    sv.validateCredentialInput input.credential = .ok (payload, kind, publicConfig) ∧
    kind = existing.kind ∧ updated = replacedRecord existing (credentialReference updated.id)
  accepts : s.credentials.Accepts sv.recordSize payload

/-- What a call of `replace_channel_credential` does. -/
inductive ReplaceRun (input : ReplaceCredentialInput) (s : CoreState) :
    Except AppError ChannelView → CoreState → Prop
  | refused {s' : CoreState} (hsame : s.Same s') : ReplaceRun input s (.error e) s'
  | replaced {s' s₁ : CoreState} (hreplaces : sv.Replaces input s payload updated s₁)
    (hadmits : s₁.conn.Admits updated)
    (hrow : s.conn.db.channels.find? updated.id = some row)
    (hdb : ∃ now, s'.conn.db =
      { s.conn.db with channels := s.conn.db.channels.upsert (updated.toRow now) })
    (hentries : s'.credentials.entries =
      (CredentialStore.delete row.credentialRef (s.credentials.stored updated.id payload)).2.entries) :
    ReplaceRun input s (.ok (ChannelView.fromRecord updated true)) s'
  | unsaved {s' s₁ : CoreState} (hreplaces : sv.Replaces input s payload updated s₁)
    (hrefused : ¬s₁.conn.Admits updated) (hdb : s'.conn.db = s.conn.db)
    (hentries : s'.credentials.entries = (s.credentials.stored updated.id payload).entries) :
    ReplaceRun input s (.error e) s'

theorem parseUuidInput_ok (h : parseUuidInput text = .ok channelId) : parseUuid text = some channelId := by
  unfold parseUuidInput at h
  split at h <;> cases h
  assumption

theorem same_getChannel {s s' : CoreState} (h : onStorage (getChannel channelId) s = (r, s')) :
    s.Same s' := same_onStorage .getChannel h

theorem replaceChannelCredentialImpl_run (h : sv.replaceChannelCredentialImpl input s = (r, s')) :
    sv.ReplaceRun input s r s' := by
  unfold replaceChannelCredentialImpl at h
  rcases Txn.bind_cases h with ⟨e, hx, rfl⟩ | ⟨channelId, s₀, hparse, h₁⟩
  · rw [ofExcept_error hx]
    exact .refused (.refl s)
  obtain ⟨hparse, hs₀⟩ := ofExcept_ok hparse
  rw [hs₀] at h₁
  rcases Txn.bind_cases h₁ with ⟨e, hx, rfl⟩ | ⟨existing, s₁, hexisting, h₂⟩
  · exact .refused (same_getChannel hx)
  have hsame := same_getChannel hexisting
  obtain ⟨hget, hcredentials⟩ := onStorage_run hexisting
  obtain ⟨-, row, hrow, hid, href⟩ := ensures_getChannel hget
  rcases Txn.bind_cases h₂ with ⟨e, hx, rfl⟩ | ⟨⟨payload, kind, publicConfig⟩, s₂, hvalid, h₃⟩
  · rw [ofExcept_error hx]
    exact .refused hsame
  obtain ⟨hvalid, hs₂⟩ := ofExcept_ok hvalid
  rw [hs₂] at h₃
  dsimp only at h₃
  split at h₃
  · cases h₃
    exact .refused hsame
  rename_i hkind
  rcases Txn.bind_cases h₃ with ⟨e, hx, rfl⟩ | ⟨ref, s₃, hput, h₄⟩
  · exact .refused (hsame.trans (same_put hx))
  obtain ⟨haccepts, rfl, hs₃⟩ := put_run hput
  rw [hcredentials] at haccepts hs₃
  have hreplaces : sv.Replaces input s payload
      (replacedRecord existing (credentialReference channelId)) s₁ := by
    have hid' : (replacedRecord existing (credentialReference channelId)).id = channelId := hid
    refine ⟨?_, ⟨existing, kind, publicConfig, ?_, hvalid, not_not.mp hkind, ?_⟩, haccepts⟩
    · rw [hid', parseUuidInput_ok hparse]
    · rw [hid', hexisting]
    · rw [hid']
  have hid' : (replacedRecord existing (credentialReference channelId)).id = channelId := hid
  rcases Txn.bind_cases h₄ with ⟨e, hsave, rfl⟩ | ⟨u, s₄, hsave, h₅⟩
  · obtain ⟨hrun, hcredentials₂⟩ := onStorage_run hsave
    rw [hs₃] at hrun hcredentials₂
    refine .unsaved hreplaces (fun hadmits => ?_) ?_ ?_
    · obtain ⟨c', hok⟩ := saveChannel_ok_iff.mpr hadmits
      rw [hok] at hrun
      cases hrun
    · rw [saveChannel_error hrun]
      exact hsame.1
    · rw [hcredentials₂, hid']
  · obtain ⟨hrun, hcredentials₂⟩ := onStorage_run hsave
    rw [hs₃] at hrun hcredentials₂
    obtain ⟨deleted, s₅, hdelete, h₆⟩ :=
      (Txn.bind_cases h₅).resolve_left (by rintro ⟨e, hx, -⟩; simp at hx)
    obtain ⟨_, ⟨⟩, hdelete⟩ := Txn.result_eq hdelete
    obtain ⟨hdelete, hconn⟩ := onCredentials_run hdelete
    cases h₆
    refine .replaced hreplaces (saveChannel_ok_iff.mp ⟨_, hrun⟩) (hid' ▸ hrow) ?_ ?_
    · obtain ⟨-, now, -, hdb⟩ := ensures_saveChannel hrun
      exact ⟨now, by rw [hconn, hdb, hsame.1]⟩
    · have hentries := congrArg (fun x => x.2.entries) hdelete
      rw [hcredentials₂, href] at hentries
      rw [← hentries, hid']

/-- What a call of `delete_channel` does. -/
inductive DeleteRun (s : CoreState) : Except AppError Unit → CoreState → Prop
  | refused {s' : CoreState} (hsame : s.Same s') : DeleteRun s (.error e) s'
  | deleted {s' : CoreState} (hrow : s.conn.db.channels.find? channelId = some row)
    (hdb : s'.conn.db = s.conn.db.deleteChannel channelId)
    (hentries : s'.credentials.entries =
      (CredentialStore.delete row.credentialRef s.credentials).2.entries) : DeleteRun s (.ok ()) s'

theorem deleteChannelImpl_run (h : deleteChannelImpl input s = (r, s')) : DeleteRun s r s' := by
  unfold deleteChannelImpl at h
  rcases Txn.bind_cases h with ⟨e, hx, rfl⟩ | ⟨channelId, s₀, hparse, h₁⟩
  · rw [ofExcept_error hx]
    exact .refused (.refl s)
  obtain ⟨-, hs₀⟩ := ofExcept_ok hparse
  rw [hs₀] at h₁
  rcases Txn.bind_cases h₁ with ⟨e, hx, rfl⟩ | ⟨existing, s₁, hexisting, h₂⟩
  · exact .refused (same_getChannel hx)
  have hsame := same_getChannel hexisting
  obtain ⟨hget, hcredentials⟩ := onStorage_run hexisting
  obtain ⟨-, row, hrow, -, href⟩ := ensures_getChannel hget
  rcases Txn.bind_cases h₂ with ⟨e, hx, rfl⟩ | ⟨u, s₂, hdelete, h₃⟩
  · obtain ⟨hrun, hcredentials₂⟩ := onStorage_run hx
    exact .refused (hsame.trans ⟨immediate_error hrun, by rw [hcredentials₂]⟩)
  obtain ⟨hrun, hcredentials₂⟩ := onStorage_run hdelete
  obtain ⟨deleted, s₃, hdelete, h₄⟩ :=
    (Txn.bind_cases h₃).resolve_left (by rintro ⟨e, hx, -⟩; simp at hx)
  obtain ⟨_, ⟨⟩, hdelete⟩ := Txn.result_eq hdelete
  obtain ⟨hdelete, hconn⟩ := onCredentials_run hdelete
  cases h₄
  refine .deleted hrow ?_ ?_
  · rw [hconn, (ensures_deleteChannel hrun).1, hsame.1]
  · have hentries := congrArg (fun x => x.2.entries) hdelete
    rw [hcredentials₂, hcredentials, href] at hentries
    exact hentries.symm

end CommandServices

/-! ## Runs -/

namespace Vault

/-- The two stores, and for each channel the payload of its last save or replacement that returned
`Ok`. -/
structure State where
  core : CoreState
  last : ChannelId → Option CredentialPayload

abbrev State.rows (v : State) : List ChannelRow := v.core.conn.db.channels.rows

/-- What a reference resolves to. -/
abbrev State.resolve (v : State) (credentialRef : String) : Option CredentialPayload :=
  v.core.credentials.resolve credentialRef

inductive Cmd where
  | save (input : SaveChannelInput)
  | replace (input : ReplaceCredentialInput)
  | delete (input : DeleteChannelInput)

/-- A command that returns the view of a channel has given it the payload of its input. -/
def remember (sv : CommandServices) (credential : ChannelCredentialInput)
    (last : ChannelId → Option CredentialPayload) :
    Except AppError ChannelView → ChannelId → Option CredentialPayload
  | .error _ => last
  | .ok view =>
    match sv.validateCredentialInput credential, parseUuid view.id with
    | .ok (payload, _), some channelId => Function.update last channelId (some payload)
    | _, _ => last

def Cmd.run (sv : CommandServices) (v : State) : Cmd → Except AppError Unit × State
  | .save input =>
    let (r, core) := sv.saveChannelImpl input v.core
    (r.map fun _ => (), { core, last := remember sv input.credential v.last r })
  | .replace input =>
    let (r, core) := sv.replaceChannelCredentialImpl input v.core
    (r.map fun _ => (), { core, last := remember sv input.credential v.last r })
  | .delete input =>
    let (r, core) := CommandServices.deleteChannelImpl input v.core
    (r, { core, last := v.last })

/-- A command does not take the payload of a channel away that the channel still needs:

* a save of a channel that is there, once its payload is stored, also saves the row; or else the
  payload is the one that was there and stays;
* after a replacement that saves the row, the keyring fails to delete the prior payload; and one
  that does not save the row has stored the payload that was there. -/
def Harmless (sv : CommandServices) (v : State) : Cmd → Prop
  | .save input => ∀ payload record s₁, sv.Saves input v.core payload record s₁ →
    ∀ row ∈ v.rows, row.id = record.id → s₁.conn.Admits record ∨
      v.core.credentials.faults 1 = true ∧ v.resolve row.credentialRef = some payload
  | .replace input => ∀ payload updated s₁, sv.Replaces input v.core payload updated s₁ →
    (s₁.conn.Admits updated → v.core.credentials.faults 1 = true) ∧
      (¬s₁.conn.Admits updated → v.resolve (credentialReference updated.id) = some payload)
  | .delete _ => True

/-- Each channel has the reference that names it, under which its last payload is stored. -/
def Kept (v : State) : Prop :=
  ∀ row ∈ v.rows, row.credentialRef = credentialReference row.id ∧ ∃ payload,
    v.last row.id = some payload ∧
      v.core.credentials.entries (channelUsername row.id) = some payload

/-- The channels are the same and resolve to the same payloads. -/
def Unchanged (v v' : State) : Prop :=
  v'.core.conn.db.channels = v.core.conn.db.channels ∧
    ∀ row ∈ v.rows, v'.resolve row.credentialRef = v.resolve row.credentialRef

section

variable {sv : CommandServices} {v v' : State} {channelId : ChannelId}

theorem Kept.resolve (h : Kept v) (hrow : row ∈ v.rows) :
    ∃ payload, v.last row.id = some payload ∧ v.resolve row.credentialRef = some payload := by
  obtain ⟨href, payload, hlast, hentry⟩ := h row hrow
  refine ⟨payload, hlast, ?_⟩
  rw [href, State.resolve, CredentialStore.resolve_credentialReference, hentry]

/-- The entry of another channel. -/
theorem update_entry {entries : String → Option CredentialPayload} {id : ChannelId}
    (h : id ≠ channelId) (payload : Option CredentialPayload) :
    Function.update entries (channelUsername channelId) payload (channelUsername id) =
      entries (channelUsername id) :=
  Function.update_of_ne (fun heq => h (channelUsername_injective heq)) _ _

theorem Kept.failed {r : Except AppError Unit} (h : Kept v' ∧ Unchanged v v') :
    Kept v' ∧ ∀ e, r = .error e → Unchanged v v' := ⟨h.1, fun _ _ => h.2⟩

theorem Kept.same (h : Kept v) (hchannels : v'.core.conn.db.channels = v.core.conn.db.channels)
    (hentries : v'.core.credentials.entries = v.core.credentials.entries) (hlast : v'.last = v.last) :
    Kept v' ∧ Unchanged v v' := by
  have hrows : v'.rows = v.rows := congrArg Table.rows hchannels
  refine ⟨fun row hrow => ?_, hchannels, fun row hrow => ?_⟩
  · rw [hrows] at hrow
    rw [hlast, hentries]
    exact h row hrow
  · rw [(h row hrow).1, State.resolve, State.resolve, CredentialStore.resolve_credentialReference,
      CredentialStore.resolve_credentialReference, hentries]

/-- A row is saved with a payload. -/
theorem Kept.save (h : Kept v) (row : ChannelRow) (hid : row.id = channelId)
    (href : row.credentialRef = credentialReference channelId)
    (hchannels : v'.core.conn.db.channels = v.core.conn.db.channels.upsert row)
    (hentries : v'.core.credentials.entries =
      Function.update v.core.credentials.entries (channelUsername channelId) (some payload))
    (hlast : v'.last = Function.update v.last channelId (some payload)) : Kept v' := by
  intro row' hrow'
  have hfind := Table.mem_rows_iff.mp hrow'
  rw [hchannels, Table.find?_upsert] at hfind
  rw [hentries, hlast]
  split at hfind
  · obtain rfl := Option.some.inj hfind
    rw [hid]
    exact ⟨href, payload, Function.update_self .., Function.update_self ..⟩
  · rename_i hne
    rw [hid] at hne
    rw [update_entry hne, Function.update_of_ne hne]
    exact h row' (Table.mem_rows_iff.mpr hfind)

/-- The entry of a channel that is not there makes no difference. -/
theorem Kept.update (h : Kept v) (hnone : ∀ row ∈ v.rows, row.id ≠ channelId)
    (hchannels : v'.core.conn.db.channels = v.core.conn.db.channels)
    (hentries : v'.core.credentials.entries =
      Function.update v.core.credentials.entries (channelUsername channelId) payload)
    (hlast : v'.last = v.last) : Kept v' ∧ Unchanged v v' := by
  have hrows : v'.rows = v.rows := congrArg Table.rows hchannels
  refine ⟨fun row hrow => ?_, hchannels, fun row hrow => ?_⟩
  · rw [hrows] at hrow
    rw [hlast, hentries, update_entry (hnone row hrow)]
    exact h row hrow
  · rw [(h row hrow).1, State.resolve, State.resolve, CredentialStore.resolve_credentialReference,
      CredentialStore.resolve_credentialReference, hentries, update_entry (hnone row hrow)]

/-- Nothing changes when a payload is stored that was there already. -/
theorem Kept.entry (h : Kept v) (hrow : row ∈ v.rows)
    (hresolve : v.resolve row.credentialRef = some payload) :
    Function.update v.core.credentials.entries (channelUsername row.id) (some payload) =
      v.core.credentials.entries := by
  rw [(h row hrow).1, State.resolve, CredentialStore.resolve_credentialReference] at hresolve
  exact Function.update_eq_self_iff.mpr hresolve.symm

theorem remember_view {credential : ChannelCredentialInput}
    (hvalid : sv.validateCredentialInput credential = .ok (payload, rest)) (record : ChannelRecord) :
    remember sv credential last (.ok (ChannelView.fromRecord record true)) =
      Function.update last record.id (some payload) := by
  simp only [remember, hvalid, ChannelView.fromRecord, parseUuid_toText]

end

/-- **One command.** -/
theorem Cmd.kept {sv : CommandServices} {v v' : State} {cmd : Cmd} (h : Kept v)
    (hok : Harmless sv v cmd) (hrun : cmd.run sv v = (r, v')) :
    Kept v' ∧ (∀ e, r = .error e → Unchanged v v') := by
  cases cmd with
  | save input =>
    obtain ⟨r₀, core, hcore⟩ : ∃ r₀ core, sv.saveChannelImpl input v.core = (r₀, core) := ⟨_, _, rfl⟩
    simp only [Cmd.run, hcore, Prod.mk.injEq] at hrun
    obtain ⟨rfl, rfl⟩ := hrun
    cases sv.saveChannelImpl_run hcore with
    | refused hsame =>
      exact Kept.failed (h.same (congrArg Database.channels hsame.1) hsame.2 rfl)
    | @saved payload record _ s₁ hsaves hdb hentries =>
      refine ⟨?_, fun e h => by cases h⟩
      obtain ⟨now, hdb⟩ := hdb
      obtain ⟨kind, publicConfig, hvalid, hrecord⟩ := hsaves.record_eq
      refine h.save (record.toRow now) rfl (congrArg ChannelRecord.credentialRef hrecord)
        (congrArg Database.channels hdb) hentries ?_
      exact remember_view hvalid record
    | @undone payload record e _ s₁ hsaves hrefused hdb hentries =>
      have hchannels := congrArg Database.channels hdb
      by_cases hrow : ∃ row ∈ v.rows, row.id = record.id
      · obtain ⟨row, hrow, hid⟩ := hrow
        obtain ⟨hfault, hresolve⟩ := (hok payload record s₁ hsaves row hrow hid).resolve_left hrefused
        rw [CredentialStore.takenBack, hfault, if_pos rfl, ← hid, h.entry hrow hresolve] at hentries
        exact Kept.failed (h.same hchannels hentries rfl)
      · have hnone : ∀ row ∈ v.rows, row.id ≠ record.id := by
          intro row hmem hid
          exact hrow ⟨row, hmem, hid⟩
        exact Kept.failed (h.update hnone hchannels hentries rfl)
  | replace input =>
    obtain ⟨r₀, core, hcore⟩ : ∃ r₀ core, sv.replaceChannelCredentialImpl input v.core = (r₀, core) :=
      ⟨_, _, rfl⟩
    simp only [Cmd.run, hcore, Prod.mk.injEq] at hrun
    obtain ⟨rfl, rfl⟩ := hrun
    cases sv.replaceChannelCredentialImpl_run hcore with
    | refused hsame =>
      exact Kept.failed (h.same (congrArg Database.channels hsame.1) hsame.2 rfl)
    | @replaced payload updated row _ s₁ hreplaces hadmits hrow hdb hentries =>
      refine ⟨?_, fun e h => by cases h⟩
      obtain ⟨now, hdb⟩ := hdb
      obtain ⟨existing, kind, publicConfig, -, hvalid, -, hrecord⟩ := hreplaces.record_eq
      obtain ⟨hmem, hid⟩ := Table.find?_eq_some_iff.mp hrow
      have hfault := (hok payload updated s₁ hreplaces).1 hadmits
      rw [(h row hmem).1, hid, CredentialStore.delete_stored, CredentialStore.takenBack, hfault,
        if_pos rfl] at hentries
      refine h.save (updated.toRow now) rfl (congrArg ChannelRecord.credentialRef hrecord)
        (congrArg Database.channels hdb) hentries ?_
      exact remember_view hvalid updated
    | @unsaved payload updated e _ s₁ hreplaces hrefused hdb hentries =>
      have hresolve := (hok payload updated s₁ hreplaces).2 hrefused
      rw [State.resolve, CredentialStore.resolve_credentialReference] at hresolve
      have hentries' : core.credentials.entries = v.core.credentials.entries := by
        rw [hentries, CredentialStore.stored]
        exact Function.update_eq_self_iff.mpr hresolve.symm
      exact Kept.failed (h.same (congrArg Database.channels hdb) hentries' rfl)
  | delete input =>
    obtain ⟨r₀, core, hcore⟩ : ∃ r₀ core,
      CommandServices.deleteChannelImpl input v.core = (r₀, core) := ⟨_, _, rfl⟩
    simp only [Cmd.run, hcore, Prod.mk.injEq] at hrun
    obtain ⟨rfl, rfl⟩ := hrun
    cases CommandServices.deleteChannelImpl_run hcore with
    | refused hsame =>
      exact Kept.failed (h.same (congrArg Database.channels hsame.1) hsame.2 rfl)
    | @deleted channelId row _ hrow hdb hentries =>
      refine ⟨fun row' hrow' => ?_, by simp⟩
      obtain ⟨hmem, hid⟩ := Table.find?_eq_some_iff.mp hrow
      rw [(h row hmem).1, hid, CredentialStore.delete_entries] at hentries
      have hkeep : row' ∈ v.rows ∧ row'.id ≠ channelId := by
        rw [State.rows, hdb] at hrow'
        simpa [Database.deleteChannel, Database.cascadeJobs, Table.delete] using hrow'
      rw [hentries]
      split
      · exact h row' hkeep.1
      · rw [update_entry hkeep.2]
        exact h row' hkeep.1

inductive Act where
  | command (cmd : Cmd)
  | other

/-- A command, whatever it returns; or something else happens that adds no channel, keeps the
references and leaves the entries alone. -/
inductive Step (sv : CommandServices) : State → Act → State → Prop
  | command {v : State} {cmd : Cmd} : Step sv v (.command cmd) (cmd.run sv v).2
  | other {v v' : State}
    (hrows : ∀ row' ∈ v'.rows, ∃ row ∈ v.rows, row.id = row'.id ∧ row.credentialRef = row'.credentialRef)
    (hentries : v'.core.credentials.entries = v.core.credentials.entries)
    (hlast : v'.last = v.last) : Step sv v .other v'

def HarmlessAct (sv : CommandServices) (v : State) : Act → Prop
  | .command cmd => Harmless sv v cmd
  | .other => True

/-- No channel yet. -/
def Start (v : State) : Prop := v.rows = []

theorem invariant {sv : CommandServices} (h : Reach Start (Step sv) (HarmlessAct sv) v) : Kept v := by
  induction h with
  | start h =>
    intro row hrow
    rw [h] at hrow
    cases hrow
  | next _ hstep hok ih =>
    cases hstep with
    | command => exact (Cmd.kept ih hok rfl).1
    | other hrows hentries hlast =>
      intro row' hrow'
      obtain ⟨row, hrow, hid, href⟩ := hrows row' hrow'
      rw [hlast, hentries, ← hid, ← href]
      exact ih row hrow

/-- **Credentials.** In every run whose commands are harmless,

* the reference of each channel resolves to the payload of its last save or replacement;
* a command that fails leaves the channels and what they resolve to as they were. -/
theorem credentials_resolve {sv : CommandServices}
    (h : Reach Start (Step sv) (HarmlessAct sv) v) :
    (∀ row ∈ v.rows, ∃ payload, v.last row.id = some payload ∧
      v.resolve row.credentialRef = some payload) ∧
    ∀ cmd e v', Harmless sv v cmd → cmd.run sv v = (.error e, v') →
      v'.core.conn.db.channels = v.core.conn.db.channels ∧
        ∀ row ∈ v.rows, v'.resolve row.credentialRef = v.resolve row.credentialRef := by
  have hkept := invariant h
  refine ⟨fun row hrow => hkept.resolve hrow, fun cmd e v' hok hrun => ?_⟩
  exact (Cmd.kept hkept hok hrun).2 e rfl

/-! ## A replacement that returns `Ok`

Nothing fails, and the channel is left without a credential. -/

namespace Sample

def webhook (token : String) : String :=
  "https://oapi.dingtalk.com/robot/send?access_token=" ++ token

/-- The URLs of webhooks are the only ones. -/
def services : CommandServices where
  parseUrl raw :=
    if "https://oapi.dingtalk.com/robot/send?access_token=".toList.isPrefixOf raw.toList then
      some {
        scheme := "https", username := "", password := none, port := none, fragment := none
        host := some "oapi.dingtalk.com", path := "/robot/send"
        queryPairs := [("access_token", String.ofList (raw.toList.drop 50))] }
    else none
  isIpAddr _ := false
  recordSize
    | .dingTalk url none => 57 + url.utf8ByteSize
    | .dingTalk url (some secret) => 55 + url.utf8ByteSize + secret.utf8ByteSize
    | .weCom url => 30 + url.utf8ByteSize

def save : Cmd := .save {
  channelId := none
  name := "Team"
  credential := .dingTalk (webhook "first") none
  keywordPrefix := none }

def replace : Cmd := .replace {
  channelId := "00000000-0000-0000-0000-000000000001"
  credential := .dingTalk (webhook "second") none }

/-- Two empty stores that do not fail. -/
def start : State where
  core := {
    conn := { db := {}, world _ := { uuid := 1 } }
    credentials := { entries _ := none, faults _ := false } }
  last _ := none

theorem start_rows : Start start := rfl

theorem reach_start : Reach Start (Step services) (HarmlessAct services) start := .start start_rows

/-- A command on no channel is harmless, unless it replaces. -/
theorem harmless_save {v : State} (h : Start v) (input : SaveChannelInput) :
    Harmless services v (.save input) := by
  intro payload record s₁ _ row hrow
  rw [h] at hrow
  cases hrow

end Sample

/-- The channel is saved and has its payload. -/
theorem credentials_resolve_saved : ∃ v : State, v.rows ≠ [] ∧
    ∀ row ∈ v.rows, ∃ payload, v.last row.id = some payload ∧
      v.resolve row.credentialRef = some payload := by
  have hrows : (Sample.save.run Sample.services Sample.start).2.rows.isEmpty = false := by
    decide +kernel
  have hreach : Reach Start (Step Sample.services) (HarmlessAct Sample.services)
      (Sample.save.run Sample.services Sample.start).2 :=
    .next Sample.reach_start .command (Sample.harmless_save Sample.start_rows _)
  generalize (Sample.save.run Sample.services Sample.start).2 = v at hrows hreach
  exact ⟨v, by simpa using hrows, (credentials_resolve hreach).1⟩

/-- Some channel resolves to nothing. -/
def State.bereft (v : State) : Bool := v.rows.any fun row =>
  (v.last row.id).isSome ∧ (v.resolve row.credentialRef).isNone

theorem State.bereft_of {v : State} (h : v.bereft) : ∃ row ∈ v.rows, ∃ payload,
    v.last row.id = some payload ∧ v.resolve row.credentialRef = none := by
  simp only [State.bereft, List.any_eq_true, decide_eq_true_eq, Option.isSome_iff_exists,
    Option.isNone_iff_eq_none] at h
  obtain ⟨row, hrow, ⟨payload, hlast⟩, hresolve⟩ := h
  exact ⟨row, hrow, payload, hlast, hresolve⟩

theorem run_ok {x : Except AppError Unit × State} (h : x.1.toOption.isSome) : x = (.ok (), x.2) := by
  rcases x with ⟨e | u, v⟩
  · cases h
  · rfl

/-- Both commands return `Ok`, and the channel is left without the payload of the second. -/
theorem credential_lost : ∃ (sv : CommandServices) (first second : Cmd) (v v₁ v₂ : State),
    Start v ∧ first.run sv v = (.ok (), v₁) ∧ second.run sv v₁ = (.ok (), v₂) ∧
      ∃ row ∈ v₂.rows, ∃ payload, v₂.last row.id = some payload ∧
        v₂.resolve row.credentialRef = none := by
  have hsave : (Sample.save.run Sample.services Sample.start).1.toOption.isSome := by
    decide +kernel
  have hreplace : (Sample.replace.run Sample.services
      (Sample.save.run Sample.services Sample.start).2).1.toOption.isSome := by
    decide +kernel
  have hbereft : (Sample.replace.run Sample.services
      (Sample.save.run Sample.services Sample.start).2).2.bereft := by
    decide +kernel
  exact ⟨Sample.services, Sample.save, Sample.replace, Sample.start, _, _, Sample.start_rows,
    run_ok hsave, run_ok hreplace, State.bereft_of hbereft⟩

end Vault

end CcReminder
