import Mathlib.Data.BitVec

/-!
# Domain model

The values that the queue, the pipeline and the rules exchange (`model.rs`, `error.rs`).

An instant `DateTime` is a number of nanoseconds since the Unix epoch and a `Duration` a number
of nanoseconds, both signed, as chrono's are. The database stores instants as RFC 3339 text in
UTC and compares the text; for the years 0 to 9999 that order is the order of the instants, and
the rows hold the instants themselves.
-/

set_option autoImplicit true

namespace CcReminder

abbrev Uuid := BitVec 128
abbrev ProjectId := Uuid
abbrev ChannelId := Uuid
abbrev RuleId := Uuid

instance : LawfulBEq Uuid := inferInstance

abbrev DateTime := Int
abbrev Duration := Int

namespace Duration

def milliseconds (n : Int) : Duration := n * 1000000
def seconds (n : Int) : Duration := n * 1000000000
def minutes (n : Int) : Duration := seconds (n * 60)
def days (n : Int) : Duration := seconds (n * 86400)

end Duration

/-- `i64::from_ne_bytes`-style cast `seconds as i64` of an unsigned 64-bit value. -/
def asI64 (n : UInt64) : Int := if n.toNat < 2 ^ 63 then n.toNat else n.toNat - 2 ^ 64

inductive AgentKind where
  | claudeCode
  | codex
  deriving DecidableEq, Repr

def AgentKind.asStr : AgentKind → String
  | .claudeCode => "claude-code"
  | .codex => "codex"

inductive EventCategory where
  | session
  | prompt
  | tool
  | permission
  | compaction
  | subagent
  | task
  | configuration
  | worktree
  | notification
  | completion
  | other
  deriving DecidableEq, Repr

inductive Severity where
  | info
  | warning
  | error
  | critical
  deriving DecidableEq, Repr

/-- The derived order of the source's `Severity`. -/
def Severity.rank : Severity → Nat
  | .info => 0
  | .warning => 1
  | .error => 2
  | .critical => 3

/-- `BTreeMap<String, β>`: the entries in the order of their keys. -/
abbrev BTreeMap (β : Type) := List (String × β)

namespace BTreeMap

def get (m : BTreeMap β) (key : String) : Option β := (m.find? (·.1 = key)).map (·.2)

end BTreeMap

/-- A JSON scalar; a number is the bit pattern of its `f64`. -/
inductive ScalarValue where
  | string (value : String)
  | number (bits : UInt64)
  | bool (value : Bool)
  | null
  deriving DecidableEq, Repr

/-- A semantic version. -/
structure Version where
  major : Nat
  minor : Nat
  patch : Nat
  pre : String := ""
  build : String := ""
  deriving DecidableEq, Repr

inductive ActionCapability where
  | approve
  | reject
  | reply
  deriving DecidableEq, Repr

structure EncryptedBlobRef where
  blobId : Uuid
  deriving DecidableEq, Repr

structure EventEnvelope where
  id : Uuid
  source : AgentKind
  sourceVersion : Version
  sourceEvent : String
  category : EventCategory
  occurredAt : DateTime
  receivedAt : DateTime
  projectId : Option ProjectId
  projectDisplayName : Option String
  unmatchedCwdFingerprint : Option String
  sessionRef : Option String
  turnRef : Option String
  model : Option String
  permissionMode : Option String
  severity : Severity
  publicFields : BTreeMap ScalarValue
  encryptedSensitiveFields : Option EncryptedBlobRef
  correlationId : Uuid
  actionId : Option String
  actionCapabilities : List ActionCapability
  deriving DecidableEq

structure NotificationDocument where
  title : String
  severity : Severity
  facts : List (String × String)
  body : String
  footer : Option String
  deriving DecidableEq, Repr

/-! ## Rules -/

structure TargetConfig where
  channelId : ChannelId
  template : Option String := none
  deriving DecidableEq

structure FilterGroup where
  toolNames : List String := []
  eventSubtypes : List String := []
  permissionModes : List String := []
  models : List String := []
  statuses : List String := []
  deriving DecidableEq

inductive SummaryMode where
  | metadataOnly
  | nativeSummary
  deriving DecidableEq

structure PrivacyPolicy where
  allowedSensitiveFields : List String
  maxBodyChars : UInt32
  summaryMode : SummaryMode
  extraRedactionPatterns : List String
  deriving DecidableEq

inductive DeliveryMode where
  | immediate
  | aggregate (windowSeconds : UInt32)
  deriving DecidableEq

inductive QuietBehavior where
  | suppress
  | defer
  deriving DecidableEq

structure DeliveryPolicy where
  mode : DeliveryMode
  cooldownSeconds : UInt32
  maxPerWindow : UInt32
  windowSeconds : UInt32
  quietBehavior : QuietBehavior
  ttlSeconds : UInt32
  maxAttempts : UInt8
  deriving DecidableEq

structure QuietHours where
  startLocal : String
  endLocal : String
  weekdays : List UInt8
  bypassAtOrAbove : Option Severity
  deriving DecidableEq

structure NotificationPause where
  startedAt : DateTime
  until' : DateTime
  deriving DecidableEq

structure RuleConfig where
  enabled : Bool
  targets : List TargetConfig
  filters : FilterGroup
  privacy : PrivacyPolicy
  delivery : DeliveryPolicy
  quietHours : Option QuietHours
  deriving DecidableEq

/-- A field-wise override; `quietHours` distinguishes "leave" from "remove". -/
structure RulePatch where
  enabled : Option Bool := none
  targets : Option (List TargetConfig) := none
  filters : Option FilterGroup := none
  privacy : Option PrivacyPolicy := none
  delivery : Option DeliveryPolicy := none
  quietHours : Option (Option QuietHours) := none
  deriving DecidableEq

/-! ## Texts -/

/-- The Unicode property `White_Space`. -/
def isWhiteSpace (c : Char) : Bool :=
  let n := c.toNat
  9 ≤ n ∧ n ≤ 13 ∨ n = 32 ∨ n = 0x85 ∨ n = 0xa0 ∨ n = 0x1680 ∨ 0x2000 ≤ n ∧ n ≤ 0x200a ∨
    n = 0x2028 ∨ n = 0x2029 ∨ n = 0x202f ∨ n = 0x205f ∨ n = 0x3000

/-- `str::trim`. -/
def trimText (text : String) : String :=
  String.ofList ((text.toList.dropWhile isWhiteSpace).reverse.dropWhile isWhiteSpace).reverse

/-- `!value.trim().is_empty()`. -/
def isNotBlank (value : String) : Bool := value.toList.any fun c => !isWhiteSpace c

/-! ## Channels, hooks and settings -/

inductive ChannelHealth where
  | unknown
  | healthy
  | pausedAuthentication
  | error
  deriving DecidableEq, Repr

inductive ChannelKind where
  | dingTalk
  | weCom
  deriving DecidableEq, Repr

inductive ChannelPublicConfig where
  | dingTalk (keywordPrefix : Option String)
  | weCom
  deriving DecidableEq, Repr

/-- A channel as callers see it. -/
structure ChannelRecord where
  id : ChannelId
  kind : ChannelKind
  name : String
  credentialRef : String
  publicConfig : ChannelPublicConfig
  healthStatus : ChannelHealth
  pausedReasonCode : Option String
  consecutiveAuthFailures : UInt8
  lastSucceededAt : Option DateTime
  nextAllowedAt : Option DateTime
  deriving DecidableEq

inductive TrustStatus where
  | notRequired
  | needsUserConfirmation
  | observedWorking
  deriving DecidableEq, Repr

inductive Locale where
  | zhCn
  | en
  deriving DecidableEq, Repr

inductive Theme where
  | system
  | light
  | dark
  deriving DecidableEq, Repr

structure AppSettings where
  autostart : Bool := false
  closeToTray : Bool := true
  locale : Locale := .zhCn
  theme : Theme := .system
  eventRetentionDays : UInt16 := 30
  logRetentionDays : UInt16 := 7
  notificationPause : Option NotificationPause := none
  debugUntil : Option DateTime := none
  onboardingCompleted : Bool := false
  localOffsetSeconds : Int32 := 0
  notificationTemplate : Option String := none
  deriving DecidableEq

/-! ## Errors -/

inductive ErrorDomain where
  | integration
  | configuration
  | secretStore
  | delivery
  | storage
  | update
  deriving DecidableEq, Repr

structure AppError where
  domain : ErrorDomain
  code : String
  message : String
  suggestedAction : Option String := none
  deriving DecidableEq, Repr

structure DeliveryReceipt where
  httpStatus : UInt16
  platformCode : Option String
  sentAt : DateTime
  deriving DecidableEq

inductive DeliveryErrorKind where
  | network
  | timeout
  | httpStatus
  | temporaryPlatform
  | authentication
  | signature
  | permission
  | format
  deriving DecidableEq, Repr

structure DeliveryError where
  kind : DeliveryErrorKind
  code : String
  redactedMessage : String
  httpStatus : Option UInt16
  platformCode : Option String
  retryAfterSeconds : Option UInt64
  deriving DecidableEq

def storageError (code message : String) : AppError := { domain := .storage, code, message }

end CcReminder
