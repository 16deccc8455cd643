import CcReminder.Security.UuidText
import CcReminder.Lib.Txn

/-!
# The credential store

`security/credentials.rs`: the keyring of the operating system, with one entry for each channel.
An entry holds the payload itself, as a column of the database does. A reference names the entry by
the identifier of the channel, and by nothing else.
-/

set_option autoImplicit true

namespace CcReminder

open Lib

inductive CredentialPayload where
  | dingTalk (webhook : String) (signingSecret : Option String)
  | weCom (webhook : String)
  deriving DecidableEq

def MAX_CREDENTIAL_BYTES : Nat := 16 * 1024

def CHANNEL_USERNAME_PREFIX : String := "channel/"
def CREDENTIAL_REFERENCE_PREFIX : String := "cc-reminder/channel/"

/-- The entries by username, and whether the keyring fails at its next calls. A call that fails
changes nothing. -/
structure CredentialStore where
  entries : String → Option CredentialPayload
  faults : Nat → Bool

abbrev Keyring (α : Type) := Txn AppError CredentialStore α

def credentialError (code message : String) : AppError := { domain := .secretStore, code, message }

def unavailableError : AppError :=
  credentialError "secret_store.unavailable" "secure credential storage is unavailable"

def notFoundError : AppError := credentialError "secret_store.not_found" "credential was not found"

def invalidReferenceError : AppError :=
  credentialError "secret_store.invalid_reference" "credential reference is invalid"

def invalidRecordError : AppError :=
  credentialError "secret_store.invalid_record" "stored credential could not be decoded"

/-- One call of the keyring. -/
def keyringCall (f : (String → Option CredentialPayload) →
    Except AppError (α × (String → Option CredentialPayload))) : Keyring α :=
  .step fun s =>
    let faults := fun n => s.faults (n + 1)
    if s.faults 0 then (.error unavailableError, { s with faults })
    else match f s.entries with
      | .ok (a, entries) => (.ok a, { entries, faults })
      | .error e => (.error e, { s with faults })

def setSecret (username : String) (payload : CredentialPayload) : Keyring Unit :=
  keyringCall fun entries => .ok ((), Function.update entries username (some payload))

def getSecret (username : String) : Keyring CredentialPayload :=
  keyringCall fun entries =>
    match entries username with
    | some payload => .ok (payload, entries)
    | none => .error notFoundError

def deleteSecret (username : String) : Keyring Unit :=
  keyringCall fun entries =>
    match entries username with
    | some _ => .ok ((), Function.update entries username none)
    | none => .error notFoundError

def usernameFromReference (credentialRef : String) : Except AppError String :=
  let cs := credentialRef.toList
  if CREDENTIAL_REFERENCE_PREFIX.toList.isPrefixOf cs then
    match parseUuid (String.ofList (cs.drop CREDENTIAL_REFERENCE_PREFIX.length)) with
    | some id => .ok (CHANNEL_USERNAME_PREFIX ++ id.toText)
    | none => .error invalidReferenceError
  else .error invalidReferenceError

namespace CredentialStore

/-- `recordSize` is the length of the record that serde_json writes for a payload. -/
def put (recordSize : CredentialPayload → Nat) (channelId : ChannelId) (payload : CredentialPayload) :
    Keyring String :=
  let username := CHANNEL_USERNAME_PREFIX ++ channelId.toText
  if recordSize payload > MAX_CREDENTIAL_BYTES then .fail invalidRecordError
  else do
    setSecret username payload
    pure (CREDENTIAL_REFERENCE_PREFIX ++ channelId.toText)

def get (credentialRef : String) : Keyring CredentialPayload :=
  match usernameFromReference credentialRef with
  | .ok username => getSecret username
  | .error e => .fail e

def delete (credentialRef : String) : Keyring Unit :=
  match usernameFromReference credentialRef with
  | .ok username => deleteSecret username
  | .error e => .fail e

/-- What a reference resolves to while the keyring does not fail. -/
def resolve (s : CredentialStore) (credentialRef : String) : Option CredentialPayload :=
  (get credentialRef { s with faults := fun _ => false }).1.toOption

end CredentialStore

/-! ## What a reference names -/

/-- The reference that `put` returns for a channel. -/
def credentialReference (id : ChannelId) : String := CREDENTIAL_REFERENCE_PREFIX ++ id.toText

def channelUsername (id : ChannelId) : String := CHANNEL_USERNAME_PREFIX ++ id.toText

theorem usernameFromReference_credentialReference (id : ChannelId) :
    usernameFromReference (credentialReference id) = .ok (channelUsername id) := by
  have hstart : CREDENTIAL_REFERENCE_PREFIX.toList.isPrefixOf (credentialReference id).toList := by
    rw [credentialReference, String.toList_append, List.isPrefixOf_iff_prefix]
    exact List.prefix_append _ _
  have hrest : String.ofList ((credentialReference id).toList.drop
      CREDENTIAL_REFERENCE_PREFIX.length) = id.toText := by
    rw [credentialReference, String.toList_append, ← String.length_toList, List.drop_left,
      String.ofList_toList]
  rw [usernameFromReference]
  simp only [hstart, if_true, hrest, parseUuid_toText]
  rfl

theorem channelUsername_injective {id id' : ChannelId} (h : channelUsername id = channelUsername id') :
    id = id' := by
  refine Uuid.toText_injective (String.toList_inj.mp ?_)
  have hlist := congrArg String.toList h
  rw [channelUsername, channelUsername, String.toList_append, String.toList_append] at hlist
  exact List.append_cancel_left hlist

namespace CredentialStore

variable {s s' : CredentialStore} {id : ChannelId}

theorem resolve_credentialReference (s : CredentialStore) (id : ChannelId) :
    s.resolve (credentialReference id) = s.entries (channelUsername id) := by
  simp only [resolve, get, usernameFromReference_credentialReference, getSecret, keyringCall,
    Txn.step_run, Bool.false_eq_true, if_false]
  cases s.entries (channelUsername id) with
  | none => rfl
  | some payload => rfl

/-- A payload is stored when its record is short enough and the keyring does not fail. -/
def Accepts (recordSize : CredentialPayload → Nat) (s : CredentialStore) (payload : CredentialPayload) :
    Prop :=
  recordSize payload ≤ MAX_CREDENTIAL_BYTES ∧ s.faults 0 = false

/-- The store after a payload was put into it. -/
def stored (s : CredentialStore) (channelId : ChannelId) (payload : CredentialPayload) :
    CredentialStore where
  entries := Function.update s.entries (channelUsername channelId) (some payload)
  faults n := s.faults (n + 1)

/-- The entries when the payload was then, unless the keyring failed, deleted again. -/
def takenBack (s : CredentialStore) (channelId : ChannelId) (payload : CredentialPayload) :
    String → Option CredentialPayload :=
  Function.update s.entries (channelUsername channelId) (if s.faults 1 then some payload else none)

theorem put_ok (h : put recordSize id payload s = (.ok ref, s')) :
    s.Accepts recordSize payload ∧ ref = credentialReference id ∧
      s' = s.stored id payload := by
  rw [put] at h
  split at h
  · simp at h
  rename_i hsize
  obtain ⟨u, s₁, h₁, h₂⟩ := Txn.bind_ok_iff.mp h
  simp only [setSecret, keyringCall, Txn.step_run] at h₁
  split at h₁
  · simp at h₁
  rename_i hfault
  cases h₁
  obtain ⟨rfl, rfl⟩ := by simpa using h₂
  exact ⟨⟨Nat.not_lt.mp hsize, by simpa using hfault⟩, rfl, rfl⟩

theorem put_error (h : put recordSize id payload s = (.error e, s')) : s'.entries = s.entries := by
  rw [put] at h
  split at h
  · cases h
    rfl
  rcases Txn.bind_error h with h | ⟨u, s₁, h₁, h₂⟩
  · simp only [setSecret, keyringCall, Txn.step_run] at h
    split at h <;> cases h
    rfl
  · simp at h₂

/-- Deleting the entry of a channel removes it unless the keyring fails. -/
theorem delete_entries (s : CredentialStore) (id : ChannelId) :
    (delete (credentialReference id) s).2.entries =
      if s.faults 0 then s.entries else Function.update s.entries (channelUsername id) none := by
  simp only [delete, usernameFromReference_credentialReference, deleteSecret, keyringCall,
    Txn.step_run]
  split
  · rfl
  · rename_i hfault
    cases hentry : s.entries (channelUsername id) with
    | none => exact (Function.update_eq_self_iff.mpr hentry.symm).symm
    | some payload => rfl

theorem delete_stored (s : CredentialStore) (id : ChannelId) (payload : CredentialPayload) :
    (delete (credentialReference id) (s.stored id payload)).2.entries = s.takenBack id payload := by
  rw [delete_entries, takenBack]
  simp only [stored, Nat.zero_add, Function.update_idem]
  split <;> rfl

end CredentialStore

end CcReminder
