import CcReminder.Installer.Downgrade
import CcReminder.Installer.Lifecycle
import CcReminder.Installer.Words
import CcReminder.Lib.Fallible

/-!
# Field encryption

`security/crypto.rs`: each sensitive field of an event is sealed on its own, with the event and the name of
the field as its associated data, so that a ciphertext opens only where it was made. The AEAD is a
parameter. An ideal one opens, under a nonce and associated data, just what was sealed under them.
-/

set_option autoImplicit true

namespace CcReminder

open Lib

def NONCE_BYTES : Nat := 24
def TAG_BYTES : Nat := 16
def MAX_ENCRYPTED_FIELDS : Nat := 256
def MAX_FIELD_NAME_BYTES : Nat := 256

/-- `[u8; NONCE_BYTES]`. -/
abbrev Nonce := { bytes : List UInt8 // bytes.length = NONCE_BYTES }

/-- The AEAD under the data key: a message, or a ciphertext, and its associated data. -/
structure Aead where
  encrypt : Nonce → List UInt8 → List UInt8 → Option (List UInt8)
  decrypt : Nonce → List UInt8 → List UInt8 → Option (List UInt8)

def cryptoError (code message : String) : AppError := { domain := .storage, code, message }

def invalidFieldsError : AppError :=
  cryptoError "security.invalid_sensitive_fields" "sensitive fields exceed the supported limits"

def randomFailed : AppError :=
  cryptoError "security.random_failed" "cryptographic randomness is unavailable"

def encryptionFailed : AppError :=
  cryptoError "security.encryption_failed" "sensitive field encryption failed"

def decryptionFailed : AppError :=
  cryptoError "security.decryption_failed" "sensitive field authentication failed"

/-! ## Limits -/

/-- The total with `usize::checked_add`, or else the error of the fields. -/
def addTotal (n m : Nat) : Except AppError Nat :=
  if n + m < 2 ^ 64 then .ok (n + m) else .error invalidFieldsError

/-- The loop of both validations, from the bytes before these fields. -/
def validateEach (size : β → Except AppError Nat) : Nat → BTreeMap β → Except AppError Unit
  | _, [] => .ok ()
  | totalBytes, (name, value) :: fields => do
    let bytes ← size value
    let totalBytes ← addTotal totalBytes bytes
    if name.isEmpty ∨ (utf8Bytes name).length > MAX_FIELD_NAME_BYTES ∨
        totalBytes > MAX_FIELD_PLAINTEXT_BYTES then
      throw invalidFieldsError
    validateEach size totalBytes fields

def validatePlaintextFields (fields : BTreeMap String) : Except AppError Unit :=
  if fields.length > MAX_ENCRYPTED_FIELDS then .error invalidFieldsError
  else validateEach (fun value => .ok (utf8Bytes value).length) 0 fields

def validateEncryptedValue (value : EncryptedValue) : Except AppError Unit :=
  if value.nonce.length ≠ NONCE_BYTES ∨ ¬(TAG_BYTES ≤ value.ciphertext.length ∧
      value.ciphertext.length ≤ MAX_FIELD_PLAINTEXT_BYTES + TAG_BYTES) then
    .error invalidFieldsError
  else .ok ()

def encryptedSize (value : EncryptedValue) : Except AppError Nat := do
  validateEncryptedValue value
  return value.ciphertext.length - TAG_BYTES

def validateEncryptedFields (fields : BTreeMap EncryptedValue) : Except AppError Unit :=
  if fields.length > MAX_ENCRYPTED_FIELDS then .error invalidFieldsError
  else validateEach encryptedSize 0 fields

/-! ## The cipher -/

def eventFieldAad (eventId : Uuid) (fieldName : String) : String :=
  "cc-reminder:event:" ++ eventId.toText ++ ":field:" ++ fieldName

/-- `fill_random`, from what the random source yields before it fails. -/
def fillRandom : List Nonce → Except AppError (Nonce × List Nonce)
  | [] => .error randomFailed
  | nonce :: draws => .ok (nonce, draws)

namespace FieldCipher

variable (cipher : Aead)

def encrypt (nonce : Nonce) (plaintext aad : List UInt8) : Except AppError EncryptedValue :=
  match cipher.encrypt nonce plaintext aad with
  | none => .error encryptionFailed
  | some ciphertext => .ok { nonce := nonce.val, ciphertext }

def decrypt (encrypted : EncryptedValue) (aad : List UInt8) : Except AppError (List UInt8) :=
  if h : encrypted.nonce.length = NONCE_BYTES then
    match cipher.decrypt ⟨encrypted.nonce, h⟩ encrypted.ciphertext aad with
    | none => .error decryptionFailed
    | some plaintext => .ok plaintext
  else .error decryptionFailed

/-- The loop of `encrypt_fields`, which draws a nonce for each field. -/
def encryptEach (eventId : Uuid) :
    List Nonce → BTreeMap String → Except AppError (BTreeMap EncryptedValue)
  | _, [] => .ok []
  | draws, (fieldName, plaintext) :: fields => do
    let (nonce, draws) ← fillRandom draws
    let value ← encrypt cipher nonce (utf8Bytes plaintext) (utf8Bytes (eventFieldAad eventId fieldName))
    let values ← encryptEach eventId draws fields
    return (fieldName, value) :: values

def encryptFields (draws : List Nonce) (blobId eventId : Uuid) (plaintextFields : BTreeMap String) :
    Except AppError EncryptedFields := do
  validatePlaintextFields plaintextFields
  let fields ← encryptEach cipher eventId draws plaintextFields
  return { eventId, blobId, fields }

def decryptField (eventId : Uuid) (field : String × EncryptedValue) : Except AppError (String × String) := do
  let plaintext ← decrypt cipher field.2 (utf8Bytes (eventFieldAad eventId field.1))
  match String.fromUTF8? ⟨plaintext.toArray⟩ with
  | some value => return (field.1, value)
  | none => throw decryptionFailed

def decryptFields (eventId : Uuid) (encryptedFields : EncryptedFields) :
    Except AppError (BTreeMap String) := do
  validateEncryptedFields encryptedFields.fields
  encryptedFields.fields.mapM (decryptField cipher eventId)

end FieldCipher

/-! ## Blobs -/

/-- A byte of a string as serde_json writes it. -/
def jsonEscape (b : UInt8) : List UInt8 :=
  let letter (c : Char) : UInt8 := UInt8.ofNat c.toNat
  if b = 34 ∨ b = 92 then [92, b]
  else if b = 8 then [92, letter 'b']
  else if b = 9 then [92, letter 't']
  else if b = 10 then [92, letter 'n']
  else if b = 12 then [92, letter 'f']
  else if b = 13 then [92, letter 'r']
  else if b < 32 then
    utf8Bytes "\\u00" ++ [letter (hexDigit (b.toNat / 16)), letter (hexDigit (b.toNat % 16))]
  else [b]

def jsonBytes (bytes : List UInt8) : List UInt8 :=
  utf8Bytes "[" ++ (utf8Bytes ",").intercalate (bytes.map fun b => utf8Bytes (Nat.repr b.toNat)) ++
    utf8Bytes "]"

def EncryptedValue.toJson (value : EncryptedValue) : List UInt8 :=
  utf8Bytes "\x7b\"nonce\":" ++ jsonBytes value.nonce ++ utf8Bytes ",\"ciphertext\":" ++
    jsonBytes value.ciphertext ++ utf8Bytes "\x7d"

/-- `serde_json::to_vec` of the fields, which has nothing to fail at. -/
def fieldsToJson (fields : BTreeMap EncryptedValue) : List UInt8 :=
  let member (field : String × EncryptedValue) : List UInt8 :=
    utf8Bytes "\"" ++ (utf8Bytes field.1).flatMap jsonEscape ++ utf8Bytes "\":" ++ field.2.toJson
  utf8Bytes "\x7b" ++ (utf8Bytes ",").intercalate (fields.map member) ++ utf8Bytes "\x7d"

def EncryptedFields.toBlob (encrypted : EncryptedFields) : Except AppError (List UInt8) := do
  validateEncryptedFields encrypted.fields
  return fieldsToJson encrypted.fields

/-! ## Limits of both sides -/

theorem addTotal_ok (h : addTotal n m = .ok total) : total = n + m := by
  unfold addTotal at h
  split at h
  · cases h
    rfl
  · cases h

/-- What a pass of the loop over one field has seen. -/
theorem validateEach_cons_ok_iff {size : β → Except AppError Nat} :
    validateEach size totalBytes ((name, value) :: fields) = .ok () ↔
      ∃ bytes, size value = .ok bytes ∧ name.isEmpty = false ∧
        (utf8Bytes name).length ≤ MAX_FIELD_NAME_BYTES ∧
        totalBytes + bytes ≤ MAX_FIELD_PLAINTEXT_BYTES ∧
        validateEach size (totalBytes + bytes) fields = .ok () := by
  constructor
  · intro h
    obtain ⟨bytes, hsize, h⟩ := Fallible.bind_ok_iff.mp h
    obtain ⟨total, hadd, h⟩ := Fallible.bind_ok_iff.mp h
    cases addTotal_ok hadd
    split at h
    · cases h
    · rename_i hlimits
      simp only [not_or, Bool.not_eq_true, Nat.not_lt] at hlimits
      exact ⟨bytes, hsize, hlimits.1, hlimits.2.1, hlimits.2.2, h⟩
  · rintro ⟨bytes, hsize, hname, hlength, htotal, h⟩
    have hadd : addTotal totalBytes bytes = .ok (totalBytes + bytes) :=
      if_pos (Nat.lt_of_le_of_lt htotal (by decide))
    rw [validateEach, hsize]
    change (addTotal totalBytes bytes >>= _) = _
    rw [hadd]
    change (if _ then _ else _) = _
    rw [if_neg (by simp only [hname, Bool.false_eq_true, false_or]; omega)]
    exact h

/-- Sizes that are the same, as far as the limit goes, pass the same validation. -/
theorem validateEach_of_forall₂ {size : β → Except AppError Nat} {size' : γ → Except AppError Nat}
    (h : List.Forall₂ (fun field field' => field'.1 = field.1 ∧
      ∀ bytes ≤ MAX_FIELD_PLAINTEXT_BYTES, size field.2 = .ok bytes → size' field'.2 = .ok bytes)
      fields fields') (hok : validateEach size totalBytes fields = .ok ()) :
    validateEach size' totalBytes fields' = .ok () := by
  induction h generalizing totalBytes with
  | nil => rfl
  | @cons field field' fields fields' hfield _ ih =>
    obtain ⟨bytes, hsize, hname, hlength, htotal, hrest⟩ := validateEach_cons_ok_iff.mp hok
    have hbytes : bytes ≤ MAX_FIELD_PLAINTEXT_BYTES := by omega
    apply validateEach_cons_ok_iff.mpr
    rw [hfield.1]
    exact ⟨bytes, hfield.2 bytes hbytes hsize, hname, hlength, htotal, ih hrest⟩

theorem validateEach_error {size : β → Except AppError Nat}
    (hsize : ∀ value e, size value = .error e → e = invalidFieldsError)
    (h : validateEach size totalBytes fields = .error e) : e = invalidFieldsError := by
  induction fields generalizing totalBytes with
  | nil => cases h
  | cons field fields ih =>
    rcases Fallible.bind_error h with hvalue | ⟨bytes, -, h⟩
    · exact hsize _ _ hvalue
    rcases Fallible.bind_error h with hadd | ⟨total, -, h⟩
    · unfold addTotal at hadd
      split at hadd
      · cases hadd
      · cases hadd
        rfl
    · split at h
      · cases h
        rfl
      · exact ih h

theorem encryptedSize_error (h : encryptedSize value = .error e) : e = invalidFieldsError := by
  rcases Fallible.bind_error h with h | ⟨_, -, h⟩
  · unfold validateEncryptedValue at h
    split at h
    · cases h
      rfl
    · cases h
  · cases h

theorem validateEncryptedFields_error (h : validateEncryptedFields fields = .error e) :
    e = invalidFieldsError := by
  unfold validateEncryptedFields at h
  split at h
  · cases h
    rfl
  · exact validateEach_error (fun _ _ => encryptedSize_error) h

/-- A ciphertext of the right length has the size of its plaintext. -/
theorem encryptedSize_ok {value : EncryptedValue} (hnonce : value.nonce.length = NONCE_BYTES)
    (hlength : value.ciphertext.length = bytes + TAG_BYTES) (hbytes : bytes ≤ MAX_FIELD_PLAINTEXT_BYTES) :
    encryptedSize value = .ok bytes := by
  have hvalid : validateEncryptedValue value = .ok () := by
    refine if_neg ?_
    rw [hlength]
    omega
  rw [encryptedSize, hvalid, hlength, Nat.add_sub_cancel]
  rfl

/-! ## An ideal AEAD -/

/-- One use of the AEAD to seal a message. -/
structure Call where
  nonce : Nonce
  message : List UInt8
  aad : List UInt8
  deriving DecidableEq

/-- The value is what the call gives. -/
structure Call.Seals (call : Call) (cipher : Aead) (value : EncryptedValue) : Prop where
  nonce : value.nonce = call.nonce.val
  ciphertext : cipher.encrypt call.nonce call.message call.aad = some value.ciphertext

/-- Nothing opens but what was sealed under the key, and no two calls had the same nonce. -/
structure Aead.Ideal (cipher : Aead) (log : List Call) : Prop where
  nonces : (log.map Call.nonce).Nodup
  length : ∀ call ∈ log, ∀ ciphertext, cipher.encrypt call.nonce call.message call.aad = some ciphertext →
    ciphertext.length = call.message.length + TAG_BYTES
  opens : ∀ call ∈ log, ∀ ciphertext, cipher.encrypt call.nonce call.message call.aad = some ciphertext →
    cipher.decrypt call.nonce ciphertext call.aad = some call.message
  authentic : ∀ nonce ciphertext aad message,
    cipher.decrypt nonce ciphertext aad = some message → ⟨nonce, message, aad⟩ ∈ log

namespace FieldCipher

variable {cipher : Aead} {log : List Call}

theorem encrypt_ok_iff :
    encrypt cipher nonce plaintext aad = .ok value ↔ Call.Seals ⟨nonce, plaintext, aad⟩ cipher value := by
  rw [encrypt]
  constructor
  · intro h
    split at h
    · cases h
    · rename_i ciphertext hencrypt
      cases h
      exact ⟨rfl, hencrypt⟩
  · rintro ⟨hnonce, hciphertext⟩
    simp only at hnonce hciphertext
    rw [hciphertext]
    exact congrArg Except.ok (by rw [← hnonce])

/-- The ciphertext opens with the data it was made with. -/
theorem decrypt_sealed {call : Call} (hideal : cipher.Ideal log) (hlog : call ∈ log)
    (hseals : call.Seals cipher value) : decrypt cipher value call.aad = .ok call.message := by
  have hopens := hideal.opens call hlog value.ciphertext hseals.ciphertext
  obtain ⟨nonce, ciphertext⟩ := value
  cases hseals.nonce
  rw [decrypt, dif_pos call.nonce.2]
  simp only [hopens]

/-- It opens with no other data, as the nonce was used for one call only. -/
theorem decrypt_elsewhere {call : Call} (hideal : cipher.Ideal log) (hlog : call ∈ log)
    (hseals : call.Seals cipher value) (hne : aad ≠ call.aad) :
    decrypt cipher value aad = .error decryptionFailed := by
  obtain ⟨nonce, ciphertext⟩ := value
  cases hseals.nonce
  rw [decrypt, dif_pos call.nonce.2]
  cases hdecrypt : cipher.decrypt ⟨call.nonce.val, call.nonce.2⟩ ciphertext aad with
  | none => rfl
  | some message =>
    have hmem := hideal.authentic _ _ _ _ hdecrypt
    have hcall := List.inj_on_of_nodup_map hideal.nonces hmem hlog rfl
    exact absurd (congrArg Call.aad hcall) hne

/-! ## Fields -/

theorem eventFieldAad_toList (eventId : Uuid) (name : String) : (eventFieldAad eventId name).toList =
    "cc-reminder:event:".toList ++ (eventId.toText.toList ++ (":field:".toList ++ name.toList)) := by
  unfold eventFieldAad
  rw [String.toList_append, String.toList_append, String.toList_append, List.append_assoc,
    List.append_assoc]

theorem eventFieldAad_injective (h : eventFieldAad eventId name = eventFieldAad eventId' name') :
    eventId = eventId' ∧ name = name' := by
  have htext := congrArg String.toList h
  rw [eventFieldAad_toList, eventFieldAad_toList] at htext
  obtain ⟨hid, hrest⟩ := List.append_inj (List.append_cancel_left htext)
    (by rw [Uuid.toText_length, Uuid.toText_length])
  have hname := List.append_cancel_left hrest
  exact ⟨Uuid.toText_injective (String.toList_injective hid), String.toList_injective hname⟩

/-- What is sealed for a field of an event. -/
def fieldCall (eventId : Uuid) (nonce : Nonce) (field : String × String) : Call :=
  ⟨nonce, utf8Bytes field.2, utf8Bytes (eventFieldAad eventId field.1)⟩

theorem fieldCall_aad (eventId : Uuid) (nonce : Nonce) (field : String × String) :
    (fieldCall eventId nonce field).aad = utf8Bytes (eventFieldAad eventId field.1) := by
  rw [fieldCall]

/-- The calls of `encrypt_fields`. -/
def calls (eventId : Uuid) (draws : List Nonce) (fields : BTreeMap String) : List Call :=
  List.zipWith (fieldCall eventId) draws fields

/-- A stored field is what one of the calls gave for the field of that name. -/
def SealedField (cipher : Aead) (log : List Call) (eventId : Uuid) (field : String × String)
    (stored : String × EncryptedValue) : Prop :=
  stored.1 = field.1 ∧
    ∃ nonce, fieldCall eventId nonce field ∈ log ∧ (fieldCall eventId nonce field).Seals cipher stored.2

theorem SealedField.mono (h : SealedField cipher log eventId field stored) (hlog : log ⊆ log') :
    SealedField cipher log' eventId field stored :=
  ⟨h.1, h.2.imp fun _ hcall => ⟨hlog hcall.1, hcall.2⟩⟩

theorem encryptEach_ok (h : encryptEach cipher eventId draws fields = .ok values) :
    List.Forall₂ (SealedField cipher (calls eventId draws fields) eventId) fields values := by
  induction fields generalizing draws values with
  | nil =>
    cases h
    exact .nil
  | cons field fields ih =>
    obtain ⟨⟨nonce, rest⟩, hdraw, h⟩ := Fallible.bind_ok_iff.mp h
    obtain ⟨value, hvalue, h⟩ := Fallible.bind_ok_iff.mp h
    obtain ⟨values, hvalues, h⟩ := Fallible.bind_ok_iff.mp h
    cases h
    cases draws with
    | nil => cases hdraw
    | cons _ draws =>
      cases hdraw
      refine .cons ⟨rfl, nonce, List.mem_cons_self, encrypt_ok_iff.mp hvalue⟩ ?_
      exact (ih hvalues).imp fun _ _ hsealed => hsealed.mono (List.subset_cons_self _ _)

theorem encryptFields_ok (h : encryptFields cipher draws blobId eventId fields = .ok encrypted) :
    validatePlaintextFields fields = .ok () ∧
      List.Forall₂ (SealedField cipher (calls eventId draws fields) eventId) fields encrypted.fields := by
  obtain ⟨⟨⟩, hvalid, h⟩ := Fallible.bind_ok_iff.mp h
  obtain ⟨values, hvalues, h⟩ := Fallible.bind_ok_iff.mp h
  cases h
  exact ⟨hvalid, encryptEach_ok hvalues⟩

/-- Each side has its own limits, and what passes the one of the plaintexts passes the other. -/
theorem validateEncryptedFields_sealed (hideal : cipher.Ideal log)
    (hsealed : List.Forall₂ (SealedField cipher log eventId) fields values)
    (hvalid : validatePlaintextFields fields = .ok ()) : validateEncryptedFields values = .ok () := by
  have hlength : fields.length = values.length := hsealed.length_eq
  unfold validatePlaintextFields at hvalid
  split at hvalid
  · cases hvalid
  rename_i hcount
  rw [hlength] at hcount
  rw [validateEncryptedFields, if_neg hcount]
  refine validateEach_of_forall₂ (hsealed.imp ?_) hvalid
  rintro field stored ⟨hname, nonce, hlog, hseals⟩
  refine ⟨hname, fun bytes hbytes hsize => ?_⟩
  cases hsize
  have hnonce : stored.2.nonce.length = NONCE_BYTES := by
    rw [hseals.nonce]
    exact nonce.2
  exact encryptedSize_ok hnonce (hideal.length _ hlog _ hseals.ciphertext) hbytes

theorem decryptField_sealed (hideal : cipher.Ideal log) (h : SealedField cipher log eventId field stored) :
    decryptField cipher eventId stored = .ok field := by
  obtain ⟨hname, nonce, hlog, hseals⟩ := h
  have hopens := decrypt_sealed hideal hlog hseals
  rw [fieldCall, ← hname] at hopens
  rw [decryptField, hopens]
  change (match String.fromUTF8? ⟨(utf8Bytes field.2).toArray⟩ with
    | some value => Except.ok (stored.1, value)
    | none => .error decryptionFailed) = _
  rw [fromUTF8?_utf8Bytes, hname]

/-- A ciphertext that stands under another name, or is opened for another event. -/
theorem decryptField_elsewhere (hideal : cipher.Ideal log) (h : SealedField cipher log eventId field stored)
    (hne : other ≠ eventId ∨ name ≠ stored.1) :
    decryptField cipher other (name, stored.2) = .error decryptionFailed := by
  obtain ⟨hname, nonce, hlog, hseals⟩ := h
  have haad : utf8Bytes (eventFieldAad other name) ≠ (fieldCall eventId nonce field).aad := by
    rw [fieldCall_aad]
    intro haad
    obtain ⟨hother, hsame⟩ := eventFieldAad_injective (utf8Bytes_injective haad)
    rcases hne with hne | hne
    · exact hne hother
    · exact hne (hsame.trans hname.symm)
  rw [decryptField, decrypt_elsewhere hideal hlog hseals haad]
  rfl

theorem decryptFields_error_of_mem (hmem : field ∈ encrypted.fields)
    (h : decryptField cipher eventId field = .error e) :
    ∃ e', decryptFields cipher eventId encrypted = .error e' :=
  Fallible.isError_bind fun _ _ => Fallible.mapM_error hmem h

theorem decrypt_error (h : decrypt cipher encrypted aad = .error e) : e = decryptionFailed := by
  unfold decrypt at h
  split at h
  · split at h
    · cases h
      rfl
    · cases h
  · cases h
    rfl

theorem decryptField_error (h : decryptField cipher eventId field = .error e) : e = decryptionFailed := by
  rcases Fallible.bind_error h with h | ⟨plaintext, -, h⟩
  · exact decrypt_error h
  · split at h
    · cases h
    · cases h
      rfl

/-- A failure is one of two constants: it tells nothing of any field. -/
theorem decryptFields_error (h : decryptFields cipher eventId encrypted = .error e) :
    e = invalidFieldsError ∨ e = decryptionFailed := by
  rcases Fallible.bind_error h with hvalid | ⟨_, -, h⟩
  · exact .inl (validateEncryptedFields_error hvalid)
  · obtain ⟨field, -, hfield⟩ := Fallible.mapM_eq_error h
    exact .inr (decryptField_error hfield)

/-- **Round trip and binding.** What `encrypt_fields` gives is written as a blob and opens for its event.
It opens for no other event, unless it has no field, and no ciphertext opens under another name, whatever
else is stored. -/
theorem encryptFields_binds (hideal : cipher.Ideal log) (hlog : calls eventId draws fields ⊆ log)
    (h : encryptFields cipher draws blobId eventId fields = .ok encrypted) :
    (∃ blob, encrypted.toBlob = .ok blob) ∧
      decryptFields cipher eventId encrypted = .ok fields ∧
      (∀ other, fields ≠ [] → other ≠ eventId → ∃ e, decryptFields cipher other encrypted = .error e) ∧
      (∀ stored name name' value, (name, value) ∈ encrypted.fields → (name', value) ∈ stored.fields →
        name' ≠ name → ∀ other, ∃ e, decryptFields cipher other stored = .error e) ∧
      (∀ stored e, validateEncryptedFields stored.fields = .error e →
        ∀ other, decryptFields cipher other stored = .error e) ∧
      (∀ stored other e, decryptFields cipher other stored = .error e →
        e = invalidFieldsError ∨ e = decryptionFailed) := by
  obtain ⟨hvalid, hcalls⟩ := encryptFields_ok h
  have hsealed := hcalls.imp fun _ _ h => h.mono hlog
  have hfits := validateEncryptedFields_sealed hideal hsealed hvalid
  refine ⟨⟨_, by rw [EncryptedFields.toBlob, hfits]; rfl⟩, ?_, ?_, ?_, ?_, ?_⟩
  · rw [decryptFields, hfits]
    exact Fallible.mapM_ok ((hsealed.imp fun _ _ h => decryptField_sealed hideal h).flip)
  · intro other hne hother
    obtain ⟨field, hmem⟩ := List.exists_mem_of_ne_nil fields hne
    obtain ⟨stored, hmem', hfield⟩ := exists_of_mem_left hsealed hmem
    exact decryptFields_error_of_mem hmem' (decryptField_elsewhere hideal hfield (.inl hother))
  · intro stored name name' value hmem hmem' hne other
    obtain ⟨field, -, hfield⟩ := exists_of_mem_right hsealed hmem
    exact decryptFields_error_of_mem hmem' (decryptField_elsewhere hideal hfield (.inr hne))
  · intro stored e hinvalid other
    rw [decryptFields, hinvalid]
    rfl
  · exact fun _ _ _ => decryptFields_error

end FieldCipher

/-! ## An ideal AEAD for a log -/

/-- The message and a tag of zeros, which opens where the log says that it was made. -/
def Aead.recording (log : List Call) : Aead where
  encrypt _ message _ := some (message ++ List.replicate TAG_BYTES 0)
  decrypt nonce ciphertext aad :=
    (log.find? fun call => call.nonce = nonce ∧ call.aad = aad ∧
      call.message ++ List.replicate TAG_BYTES 0 = ciphertext).map (·.message)

theorem Aead.recording_ideal {log : List Call} (h : (log.map Call.nonce).Nodup) :
    (Aead.recording log).Ideal log where
  nonces := h
  length call _ ciphertext hencrypt := by
    cases hencrypt
    rw [List.length_append, List.length_replicate]
  opens call hlog ciphertext hencrypt := by
    cases hencrypt
    simp only [Aead.recording, Option.map_eq_some_iff]
    cases hfind : log.find? fun call' => decide (call'.nonce = call.nonce ∧ call'.aad = call.aad ∧
        call'.message ++ List.replicate TAG_BYTES 0 = call.message ++ List.replicate TAG_BYTES 0) with
    | none =>
      have hcall := List.find?_eq_none.mp hfind call hlog
      simp at hcall
    | some call' =>
      have hfound := List.find?_some hfind
      have hnonce := (of_decide_eq_true hfound).1
      have hsame := List.inj_on_of_nodup_map h (List.mem_of_find?_eq_some hfind) hlog hnonce
      exact ⟨call', rfl, congrArg Call.message hsame⟩
  authentic nonce ciphertext aad message hdecrypt := by
    simp only [Aead.recording, Option.map_eq_some_iff] at hdecrypt
    obtain ⟨call, hfind, rfl⟩ := hdecrypt
    have hfound := List.find?_some hfind
    obtain ⟨rfl, rfl, -⟩ := of_decide_eq_true hfound
    exact List.mem_of_find?_eq_some hfind

namespace FieldCipher.Sample

def nonce : Nonce := ⟨List.replicate 24 7, rfl⟩

def fields : BTreeMap String := [("prompt", "secret text")]

def encrypted : EncryptedFields where
  eventId := 1
  blobId := 2
  fields := [("prompt", ⟨List.replicate 24 7, utf8Bytes "secret text" ++ List.replicate 16 0⟩)]

theorem encryptFields_prompt (log : List Call) :
    encryptFields (Aead.recording log) [nonce] 2 1 fields = .ok encrypted := by
  rfl

theorem encryptFields_binds_prompt :
    let cipher := Aead.recording (calls 1 [nonce] fields)
    decryptFields cipher 1 encrypted = .ok fields ∧ ∃ e, decryptFields cipher 3 encrypted = .error e := by
  have hideal : (Aead.recording (calls 1 [nonce] fields)).Ideal (calls 1 [nonce] fields) :=
    Aead.recording_ideal (List.nodup_singleton nonce)
  have hbinds := encryptFields_binds hideal (List.Subset.refl _) (encryptFields_prompt _)
  exact ⟨hbinds.2.1, hbinds.2.2.1 3 (by decide) (by decide)⟩

/-- An event without sensitive fields has nothing to open, so its empty map opens for any event. -/
theorem opens_elsewhere : ∃ cipher log encrypted, Aead.Ideal cipher log ∧ calls 1 [] [] ⊆ log ∧
    encryptFields cipher [] 2 1 [] = .ok encrypted ∧ decryptFields cipher 3 encrypted = .ok [] :=
  ⟨Aead.recording [], [], ⟨1, 2, []⟩, Aead.recording_ideal List.nodup_nil, List.Subset.refl _, rfl, rfl⟩

end FieldCipher.Sample

end CcReminder
