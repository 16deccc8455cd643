import CcReminder.Storage.Schema

/-!
# What the pipeline is built on

The types of the capability catalog, of a captured hook and of the redactor, and the `Services`:
the embedded catalogs, SHA-256, serde_json, the regex engine, path matching and the field cipher,
which are parameters of the model.
-/

set_option autoImplicit true

namespace CcReminder

/-! ## Capability catalog -/

inductive Sensitivity where
  | pub
  | sensitive
  | forbidden
  deriving DecidableEq

structure InputField where
  name : String
  sensitivity : Sensitivity
  deriving DecidableEq

structure HookCapability where
  sourceEvent : String
  labelZh : String
  category : EventCategory
  phase : String
  matcherTarget : Option String := none
  inputFields : List InputField
  deriving DecidableEq

/-! ## Captured hooks -/

structure CapturedHookEvent where
  source : AgentKind
  sourceVersion : Version
  sourceEvent : String
  occurredAt : DateTime
  cwd : Option String
  sessionId : Option String
  turnId : Option String
  model : Option String
  permissionMode : Option String
  publicFields : BTreeMap ScalarValue
  sensitiveFields : BTreeMap String
  deriving DecidableEq

/-- What the helper sends to the application. -/
structure IngressRequest where
  protocolVersion : UInt16
  helperVersion : String
  commandFingerprint : String
  event : CapturedHookEvent
  deriving DecidableEq

inductive PathPlatform where
  | unix
  | windows
  deriving DecidableEq

structure ProjectRegistration where
  id : ProjectId
  displayName : String
  canonicalRoot : String
  aliases : List String
  deriving DecidableEq

inductive ProjectMatch where
  | matched (projectId : ProjectId) (displayName : String)
  | unmatched
  deriving DecidableEq

/-! ## Ciphertext -/

structure EncryptedValue where
  nonce : List UInt8
  ciphertext : List UInt8
  deriving DecidableEq

structure EncryptedFields where
  eventId : Uuid
  blobId : Uuid
  fields : BTreeMap EncryptedValue
  deriving DecidableEq

def EncryptedFields.blobRef (f : EncryptedFields) : EncryptedBlobRef := { blobId := f.blobId }

/-! ## Services -/

/-- A compiled regular expression with `[REDACTED]` as its replacement. -/
structure Regex where
  matchesEmpty : Bool
  replaceAll : String → String

structure Services where
  sha256 : List UInt8 → List UInt8
  hmac : List UInt8 → List UInt8 → List UInt8
  /-- The hooks of the catalog that `catalog_for` selects. -/
  catalogFor : AgentKind → Version → List HookCapability
  encodeRule : RuleConfig → List UInt8
  encodeCaptured : CapturedHookEvent → List UInt8
  encodeRequest : IngressRequest → List UInt8
  decodeRequest : List UInt8 → Option IngressRequest
  encodeSafe : SafeIngressEvent → List UInt8
  decodeSafe : List UInt8 → Option SafeIngressEvent
  mandatory : Regex
  boundedRegex : String → Except AppError Regex
  formatLocal : DateTime → Int → String
  formatNumber : UInt64 → String
  formatVersion : Version → String
  resolveProject : String → List ProjectRegistration → PathPlatform → ProjectMatch
  pathLeaf : String → PathPlatform → Option String
  /-- The ciphertexts of `encrypt_fields`, from a source of nonces. -/
  encryptFields : Uuid → Uuid → BTreeMap String → Except AppError (BTreeMap EncryptedValue)
  toBlob : BTreeMap EncryptedValue → Except AppError (List UInt8)

/-- The hook of an event in the catalog of its agent. -/
def Services.hookFor (sv : Services) (agent : AgentKind) (version : Version)
    (sourceEvent : String) : Option HookCapability :=
  (sv.catalogFor agent version).find? (·.sourceEvent = sourceEvent)

/-! ## Redaction -/

def MAX_PATTERNS : Nat := 32
def MAX_PATTERN_CHARS : Nat := 512

def invalidPattern : AppError where
  domain := .configuration
  code := "configuration.redaction_pattern_invalid"
  message := "redaction pattern configuration is invalid"

structure Redactor where
  mandatory : Regex
  custom : Option Regex

namespace Redactor

/-- Compile the custom patterns, none of which may match the empty string, as one alternation. -/
def compile (sv : Services) (patterns : List String) : Except AppError Redactor := do
  if patterns.length > MAX_PATTERNS ∨ patterns.any (·.length > MAX_PATTERN_CHARS) then
    .error invalidPattern
  for pattern in patterns do
    let compiled ← sv.boundedRegex pattern
    if compiled.matchesEmpty then .error invalidPattern
  let custom ←
    if patterns = [] then pure none
    else some <$> sv.boundedRegex ("|".intercalate (patterns.map fun p => "(?:" ++ p ++ ")"))
  pure { mandatory := sv.mandatory, custom }

def redact (r : Redactor) (input : String) : String :=
  let mandatory := r.mandatory.replaceAll input
  match r.custom with
  | some custom => custom.replaceAll mandatory
  | none => mandatory

end Redactor

end CcReminder
