import CcReminder.Events.Normalize
import CcReminder.Lib.Json

/-!
# Capturing a hook

`capture_hook_json`: of what a hook sends, the catalog says which fields are public, which are sensitive
and which are dropped. Two payloads that agree on the public fields and on the three fields with a place of
their own are captured as events that differ in the sensitive fields and in the time.
-/

set_option autoImplicit true

namespace CcReminder

open Lib

/-- `BTreeMap::insert`. -/
def BTreeMap.insert (key : String) (value : β) : BTreeMap β → BTreeMap β
  | [] => [(key, value)]
  | (key', value') :: rest =>
    if key = key' then (key, value) :: rest
    else if key < key' then (key, value) :: (key', value') :: rest
    else (key', value') :: BTreeMap.insert key value rest

/-- What serde_json makes of a number and of a whole value. -/
structure JsonServices (ν : Type) where
  /-- `Number::as_f64`, as bits. -/
  asF64 : ν → Option UInt64
  /-- `Value::to_string`. -/
  render : Json ν → String

/-- `Map::get`; a value that is no object has no members. -/
def memberOf (raw : Json ν) (name : String) : Option (Json ν) :=
  match raw with
  | .object members => members.lookup name
  | _ => none

def scalar (js : JsonServices ν) : Json ν → Option ScalarValue
  | .string value => some (.string value)
  | .number value => (js.asF64 value).map .number
  | .bool value => some (.bool value)
  | .null => some .null
  | .array _ | .object _ => none

def jsonString : Json ν → Option String
  | .string value => some value
  | _ => none

def sensitiveString (js : JsonServices ν) : Json ν → String
  | .string value => value
  | value => js.render value

/-- A field of the payload, as the catalog classifies it. -/
def captureField (js : JsonServices ν) (raw : Json ν) (captured : CapturedHookEvent)
    (field : InputField) : CapturedHookEvent :=
  match memberOf raw field.name with
  | none => captured
  | some value =>
    match field.sensitivity with
    | .forbidden => captured
    | .pub =>
      if field.name = "model" then { captured with model := jsonString value }
      else if field.name = "permission_mode" then { captured with permissionMode := jsonString value }
      else if field.name = "hook_event_name" then captured
      else
        match scalar js value with
        | some value =>
          { captured with publicFields := captured.publicFields.insert field.name value }
        | none => captured
    | .sensitive =>
      if field.name = "cwd" then { captured with cwd := jsonString value }
      else if field.name = "session_id" then { captured with sessionId := jsonString value }
      else if field.name = "turn_id" then { captured with turnId := jsonString value }
      else
        { captured with
          sensitiveFields := captured.sensitiveFields.insert field.name (sensitiveString js value) }

/-- The subtype of an event is the value of the matcher of its hook, unless the payload has one. -/
def addSubtype (matcherTarget : Option String) (fields : BTreeMap ScalarValue) : BTreeMap ScalarValue :=
  match fields.get "event_subtype", matcherTarget.bind fields.get with
  | none, some (.string value) => fields.insert "event_subtype" (.string value)
  | _, _ => fields

/-- The status is the phase of the hook, unless the payload has one. -/
def addStatus (phase : String) (fields : BTreeMap ScalarValue) : BTreeMap ScalarValue :=
  match fields.get "status" with
  | some _ => fields
  | none => fields.insert "status" (.string phase)

/-- The event before its fields are captured. -/
def CapturedHookEvent.blank (agent : AgentKind) (sourceVersion : Version) (event : String)
    (now : DateTime) : CapturedHookEvent where
  source := agent
  sourceVersion := sourceVersion
  sourceEvent := event
  occurredAt := now
  cwd := none
  sessionId := none
  turnId := none
  model := none
  permissionMode := none
  publicFields := []
  sensitiveFields := []

/-- `capture_hook_json`, with the time that it takes. -/
def captureHookJson (sv : Services) (js : JsonServices ν) (agent : AgentKind) (event : String)
    (sourceVersion : Version) (raw : Json ν) (now : DateTime) : Except AppError CapturedHookEvent :=
  match raw with
  | .object _ =>
    match sv.hookFor agent sourceVersion event with
    | none => .error (invalidHookEvent "hook event is not supported by the selected catalog")
    | some hook =>
      let captured := hook.inputFields.foldl (captureField js raw)
        (CapturedHookEvent.blank agent sourceVersion event now)
      .ok { captured with
        publicFields := addStatus hook.phase (addSubtype hook.matcherTarget captured.publicFields) }
  | _ => .error (invalidHookEvent "hook payload must be an object")

/-! ## What sensitive input decides -/

/-- The payloads agree on what the catalog makes public and on the fields with a place of their own. -/
structure HookCapability.Agree (hook : HookCapability) (raw raw' : Json ν) : Prop where
  pub : ∀ field ∈ hook.inputFields, field.sensitivity = .pub →
    memberOf raw field.name = memberOf raw' field.name
  placed : ∀ name ∈ ["cwd", "session_id", "turn_id"], memberOf raw name = memberOf raw' name

/-- The captured events differ in the sensitive fields and in the time. -/
def CapturedHookEvent.SamePublic (captured captured' : CapturedHookEvent) : Prop :=
  captured' = { captured with
    occurredAt := captured'.occurredAt, sensitiveFields := captured'.sensitiveFields }

theorem captureField_occurredAt {js : JsonServices ν} {raw : Json ν} {captured : CapturedHookEvent}
    {field : InputField} : (captureField js raw captured field).occurredAt = captured.occurredAt := by
  unfold captureField
  split
  · rfl
  split
  · rfl
  · split
    · rfl
    split
    · rfl
    split
    · rfl
    split <;> rfl
  · split
    · rfl
    split
    · rfl
    split <;> rfl

/-- An event is captured at the time that was given. -/
theorem captureHookJson_occurredAt {sv : Services} {js : JsonServices ν} {raw : Json ν}
    (h : captureHookJson sv js agent event sourceVersion raw now = .ok captured) :
    captured.occurredAt = now := by
  have hfold (fields : List InputField) (captured : CapturedHookEvent) :
      (fields.foldl (captureField js raw) captured).occurredAt = captured.occurredAt := by
    induction fields generalizing captured with
    | nil => rfl
    | cons field fields ih => exact (ih _).trans captureField_occurredAt
  unfold captureHookJson at h
  split at h
  · split at h
    · cases h
    · cases h
      exact hfold _ _
  · cases h

/-- An object is captured for every hook of the catalog. -/
theorem captureHookJson_ok {sv : Services} (js : JsonServices ν) (now : DateTime)
    (hhook : sv.hookFor agent sourceVersion event = some hook) (members : List (String × Json ν)) :
    ∃ captured, captureHookJson sv js agent event sourceVersion (.object members) now = .ok captured := by
  unfold captureHookJson
  rw [hhook]
  exact ⟨_, rfl⟩

theorem captureField_samePublic {js : JsonServices ν} {raw raw' : Json ν} {field : InputField}
    (hpub : field.sensitivity = .pub → memberOf raw field.name = memberOf raw' field.name)
    (hplaced : ∀ name ∈ ["cwd", "session_id", "turn_id"], memberOf raw name = memberOf raw' name)
    (h : captured.SamePublic captured') :
    (captureField js raw captured field).SamePublic (captureField js raw' captured' field) := by
  cases hsensitivity : field.sensitivity with
  | pub =>
    rw [captureField, captureField, ← hpub hsensitivity, hsensitivity]
    cases memberOf raw field.name with
    | none => exact h
    | some value =>
      dsimp only
      rw [h]
      split
      · rfl
      split
      · rfl
      split
      · rfl
      split <;> rfl
  | forbidden =>
    rw [captureField, captureField, hsensitivity]
    cases memberOf raw field.name <;> cases memberOf raw' field.name <;> exact h
  | sensitive =>
    by_cases hname : field.name ∈ ["cwd", "session_id", "turn_id"]
    · rw [captureField, captureField, ← hplaced _ hname, hsensitivity]
      cases memberOf raw field.name with
      | none => exact h
      | some value =>
        dsimp only
        rw [h]
        split
        · rfl
        split
        · rfl
        split <;> rfl
    · -- any other sensitive field is kept among the sensitive fields
      simp only [List.mem_cons, List.not_mem_nil, or_false, not_or] at hname
      obtain ⟨hcwd, hsession, hturn⟩ := hname
      rw [captureField, captureField, hsensitivity]
      simp only [hcwd, hsession, hturn, if_false]
      cases memberOf raw field.name <;> cases memberOf raw' field.name <;> (rw [h]; rfl)

theorem foldl_captureField_samePublic (js : JsonServices ν) {raw raw' : Json ν}
    (fields : List InputField)
    (hpub : ∀ field ∈ fields, field.sensitivity = .pub →
      memberOf raw field.name = memberOf raw' field.name)
    (hplaced : ∀ name ∈ ["cwd", "session_id", "turn_id"], memberOf raw name = memberOf raw' name)
    (h : captured.SamePublic captured') :
    (fields.foldl (captureField js raw) captured).SamePublic
      (fields.foldl (captureField js raw') captured') := by
  induction fields generalizing captured captured' with
  | nil => exact h
  | cons field fields ih =>
    rw [List.forall_mem_cons] at hpub
    exact ih hpub.2 (captureField_samePublic hpub.1 hplaced h)

/-- **Capture.** What is captured beside the sensitive fields depends on the public ones. -/
theorem captureHookJson_samePublic {sv : Services} {js : JsonServices ν} {raw raw' : Json ν}
    (hhook : sv.hookFor agent sourceVersion event = some hook) (hagree : hook.Agree raw raw')
    (h : captureHookJson sv js agent event sourceVersion raw now = .ok captured)
    (h' : captureHookJson sv js agent event sourceVersion raw' now' = .ok captured') :
    captured.SamePublic captured' := by
  unfold captureHookJson at h h'
  rw [hhook] at h h'
  split at h
  · split at h'
    · cases h
      cases h'
      have hblank : (CapturedHookEvent.blank agent sourceVersion event now).SamePublic
          (CapturedHookEvent.blank agent sourceVersion event now') := rfl
      have hfold := foldl_captureField_samePublic js hook.inputFields hagree.pub hagree.placed hblank
      unfold CapturedHookEvent.SamePublic at hfold ⊢
      rw [hfold]
    · cases h'
  · cases h

/-- The safe parts of such events differ in the identifier and in the times. -/
theorem CapturedHookEvent.SamePublic.safe {captured captured' : CapturedHookEvent}
    (h : captured.SamePublic captured') (sv : Services) (projects : List ProjectRegistration)
    (platform : PathPlatform) (key : Option (List UInt8)) (receivedAt receivedAt' : DateTime) :
    normalizeSafeIngress sv captured' projects platform key receivedAt' =
      { normalizeSafeIngress sv captured projects platform key receivedAt with
        eventId := stableIngressEventId sv captured'
        occurredAt := captured'.occurredAt
        receivedAt := receivedAt' } := by
  unfold CapturedHookEvent.SamePublic at h
  rw [h]
  rfl

end CcReminder
