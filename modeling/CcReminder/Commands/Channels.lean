import CcReminder.Security.Credentials
import CcReminder.Storage.ConfigWrites

/-!
# Channel commands

`commands/channels.rs` over the database and the credential store, which have no transaction in
common: each command writes both and makes up for a failure itself.
-/

set_option autoImplicit true

namespace CcReminder

open Lib

/-! ## Webhooks -/

/-- A URL as the `url` crate parses it. -/
structure Url where
  scheme : String
  username : String
  password : Option String
  port : Option UInt16
  fragment : Option String
  host : Option String
  path : String
  queryPairs : List (String × String)

/-- The `url` crate, the parser of IP addresses and serde_json. -/
structure CommandServices where
  parseUrl : String → Option Url
  isIpAddr : String → Bool
  recordSize : CredentialPayload → Nat

inductive WebhookValidationError where
  | malformed
  | notHttps
  | wrongHost
  | wrongPath
  | credentialMissing
  | userInfoPresent
  | fragmentPresent
  | explicitPort
  | ipLiteral
  deriving DecidableEq

def WebhookValidationError.debug : WebhookValidationError → String
  | .malformed => "Malformed"
  | .notHttps => "NotHttps"
  | .wrongHost => "WrongHost"
  | .wrongPath => "WrongPath"
  | .credentialMissing => "CredentialMissing"
  | .userInfoPresent => "UserInfoPresent"
  | .fragmentPresent => "FragmentPresent"
  | .explicitPort => "ExplicitPort"
  | .ipLiteral => "IpLiteral"

/-- What follows the first separator, if there is one. -/
def splitOnce? (separator : List Char) : List Char → Option (List Char)
  | [] => if separator = [] then some [] else none
  | c :: cs =>
    if separator.isPrefixOf (c :: cs) then some ((c :: cs).drop separator.length)
    else splitOnce? separator cs

def hasExplicitAuthorityPort (raw : String) : Bool :=
  let cs := raw.toList
  let afterScheme := (splitOnce? "://".toList cs).getD cs
  let authority := afterScheme.takeWhile fun c => !(['/', '?', '#'].contains c)
  let hostPort := (authority.reverse.takeWhile (· ≠ '@')).reverse
  if hostPort.head? = some '[' ∧ hostPort.contains ']' then
    ((hostPort.dropWhile (· ≠ ']')).drop 1).contains ':'
  else hostPort.contains ':'

namespace CommandServices

variable (sv : CommandServices)

def hostIsIpLiteral (host : String) : Bool :=
  host.toList.head? = some '[' ∧ host.toList.getLast? = some ']' ∨ sv.isIpAddr host

/-- The host, the path and the query parameter of the official endpoint. -/
def officialEndpoint : ChannelKind → String × String × String
  | .dingTalk => ("oapi.dingtalk.com", "/robot/send", "access_token")
  | .weCom => ("qyapi.weixin.qq.com", "/cgi-bin/webhook/send", "key")

def validateOfficialWebhook (kind : ChannelKind) (raw : String) :
    Except WebhookValidationError Unit :=
  if hasExplicitAuthorityPort raw then .error .explicitPort
  else match sv.parseUrl raw with
  | none => .error .malformed
  | some url =>
    if url.scheme ≠ "https" then .error .notHttps
    else if url.username ≠ "" ∨ url.password.isSome then .error .userInfoPresent
    else if url.port.isSome then .error .explicitPort
    else if url.fragment.isSome then .error .fragmentPresent
    else match url.host with
    | none => .error .wrongHost
    | some host =>
      let (expectedHost, expectedPath, credentialName) := officialEndpoint kind
      if sv.hostIsIpLiteral host ∨ host = "localhost" then .error .ipLiteral
      else if host ≠ expectedHost then .error .wrongHost
      else if url.path ≠ expectedPath then .error .wrongPath
      else match url.queryPairs with
      | [(name, value)] =>
        if name = credentialName ∧ value ≠ "" then .ok () else .error .credentialMissing
      | _ => .error .credentialMissing

end CommandServices

/-! ## Inputs and views -/

inductive ChannelCredentialInput where
  | dingTalk (webhook : String) (signingSecret : Option String)
  | weCom (webhook : String)

structure SaveChannelInput where
  channelId : Option String
  name : String
  credential : ChannelCredentialInput
  keywordPrefix : Option String

structure ReplaceCredentialInput where
  channelId : String
  credential : ChannelCredentialInput

structure DeleteChannelInput where
  channelId : String

structure ChannelView where
  id : String
  kind : String
  name : String
  credentialPresent : Bool
  health : String
  paused : Bool
  lastSucceededAt : Option DateTime
  deriving DecidableEq

def channelKindCode : ChannelKind → String
  | .dingTalk => "ding_talk"
  | .weCom => "we_com"

def channelSummary (health : ChannelHealth) (paused : Option String) : String :=
  if paused.isSome then "paused"
  else match health with
    | .healthy => "healthy"
    | .unknown => "unknown"
    | .pausedAuthentication => "paused"
    | .error => "error"

def ChannelView.fromRecord (record : ChannelRecord) (present : Bool) : ChannelView where
  id := record.id.toText
  kind := channelKindCode record.kind
  name := record.name
  credentialPresent := present
  health := channelSummary record.healthStatus record.pausedReasonCode
  paused := record.pausedReasonCode.isSome
  lastSucceededAt := record.lastSucceededAt

/-! ## Validation -/

def parseUuidInput (value : String) : Except AppError Uuid :=
  match parseUuid value with
  | some id => .ok id
  | none => .error (configurationError "malformed_uuid" "identifier is invalid")

def CommandServices.validateWebhook (sv : CommandServices) (kind : ChannelKind) (raw : String) :
    Except AppError Unit :=
  match sv.validateOfficialWebhook kind raw with
  | .ok () => .ok ()
  | .error e => .error (configurationError "invalid_webhook" ("webhook rejected: " ++ e.debug))

/-- An empty signing secret counts as none. -/
def CommandServices.validateCredentialInput (sv : CommandServices) :
    ChannelCredentialInput → Except AppError (CredentialPayload × ChannelKind × ChannelPublicConfig)
  | .dingTalk webhook signingSecret => do
    sv.validateWebhook .dingTalk webhook
    pure (.dingTalk webhook (signingSecret.filter (· ≠ "")), .dingTalk, .dingTalk none)
  | .weCom webhook => do
    sv.validateWebhook .weCom webhook
    pure (.weCom webhook, .weCom, .weCom)

def applyPublicConfig (publicConfig : ChannelPublicConfig) (keywordPrefix : Option String) :
    ChannelPublicConfig :=
  match publicConfig with
  | .dingTalk _ => .dingTalk ((keywordPrefix.map trimText).filter (· ≠ ""))
  | other => other

/-! ## Commands -/

structure CoreState where
  conn : Conn
  credentials : CredentialStore

abbrev Command (α : Type) := Txn AppError CoreState α

def onStorage (x : Tx α) : Command α :=
  .step fun s => ((x s.conn).1, { s with conn := (x s.conn).2 })

def onCredentials (x : Keyring α) : Command α :=
  .step fun s => ((x s.credentials).1, { s with credentials := (x s.credentials).2 })

def Command.ofExcept : Except AppError α → Command α
  | .ok a => pure a
  | .error e => .fail e

def credentialStoreFailure (_ : AppError) : AppError :=
  credentialError "secret_store.unavailable" "credential store rejected the operation"

namespace CommandServices

variable (sv : CommandServices)

/-- The identifier of the channel to save: the one given, or a new one. -/
def saveChannelId (input : SaveChannelInput) : Command ChannelId :=
  match input.channelId with
  | some id => .ofExcept (parseUuidInput id)
  | none => onStorage do pure (← draw).uuid

def savedRecord (id : ChannelId) (input : SaveChannelInput) (kind : ChannelKind)
    (publicConfig : ChannelPublicConfig) (credentialRef : String) : ChannelRecord where
  id := id
  kind := kind
  name := input.name
  credentialRef := credentialRef
  publicConfig := publicConfig
  healthStatus := .unknown
  pausedReasonCode := none
  consecutiveAuthFailures := 0
  lastSucceededAt := none
  nextAllowedAt := none

/-- The payload that `put` has just stored is deleted again when the row cannot be saved. -/
def saveChannelImpl (input : SaveChannelInput) : Command ChannelView :=
  if !isNotBlank input.name then
    .fail (configurationError "channel_invalid" "channel name is empty")
  else do
    let (payload, kind, publicConfig) ← .ofExcept (sv.validateCredentialInput input.credential)
    let publicConfig := applyPublicConfig publicConfig input.keywordPrefix
    let id ← saveChannelId input
    let newCredentialRef ← (onCredentials (CredentialStore.put sv.recordSize id payload)).mapError
      credentialStoreFailure
    let record := savedRecord id input kind publicConfig newCredentialRef
    match ← (onStorage (saveChannel record)).result with
    | .ok () => pure (ChannelView.fromRecord record true)
    | .error e => do
      let _ ← (onCredentials (CredentialStore.delete newCredentialRef)).result
      .fail e

/-- The record of a channel with a new credential: its history of failures is forgotten. -/
def replacedRecord (existing : ChannelRecord) (credentialRef : String) : ChannelRecord :=
  { existing with
    credentialRef, healthStatus := .unknown, pausedReasonCode := none
    consecutiveAuthFailures := 0, nextAllowedAt := none }

/-- The payload under the prior reference is deleted once the row has the new one. -/
def replaceChannelCredentialImpl (input : ReplaceCredentialInput) : Command ChannelView := do
  let channelId ← .ofExcept (parseUuidInput input.channelId)
  let existing ← onStorage (getChannel channelId)
  let (payload, kind, _) ← .ofExcept (sv.validateCredentialInput input.credential)
  if kind ≠ existing.kind then
    .fail (configurationError "channel_kind_mismatch" "credential kind does not match channel")
  else
    let priorRef := existing.credentialRef
    let newRef ← (onCredentials (CredentialStore.put sv.recordSize channelId payload)).mapError
      credentialStoreFailure
    let updated := replacedRecord existing newRef
    onStorage (saveChannel updated)
    let _ ← (onCredentials (CredentialStore.delete priorRef)).result
    pure (ChannelView.fromRecord updated true)

def deleteChannelImpl (input : DeleteChannelInput) : Command Unit := do
  let channelId ← .ofExcept (parseUuidInput input.channelId)
  let existing ← onStorage (getChannel channelId)
  onStorage (deleteChannel channelId)
  let _ ← (onCredentials (CredentialStore.delete existing.credentialRef)).result
  pure ()

end CommandServices

end CcReminder
