import CcReminder.Services
import CcReminder.Storage.Queue.Basic

/-!
# Notification documents

`rules/template.rs`: a document is rendered from a template or in the canonical form. A template
reads the fields of a context, and only those that the catalog and the privacy policy authorize.
-/

set_option autoImplicit true

namespace CcReminder

def MAX_TEMPLATE_BYTES : Nat := 16 * 1024

def BASE_TEMPLATE_FIELDS : List String :=
  ["agent.name", "agent.version", "project.name", "event.name", "event.severity",
    "event.occurred_at"]

def invalidTemplate : AppError where
  domain := .configuration
  code := "configuration.template_invalid"
  message := "notification template is invalid"

def fieldNotAllowed : AppError where
  domain := .configuration
  code := "configuration.template_field_not_allowed"
  message := "notification template field is not allowed"

def severityName : Severity → String
  | .info => "info"
  | .warning => "warning"
  | .error => "error"
  | .critical => "critical"

structure TemplateContext where
  values : BTreeMap String
  authorized : List String
  severity : Severity

def TemplateContext.value (ctx : TemplateContext) (path : String) : String :=
  (ctx.values.get path).getD ""

variable (sv : Services)

def scalarText : ScalarValue → Option String
  | .string value => some value
  | .number bits => some (sv.formatNumber bits)
  | .bool value => some (if value then "true" else "false")
  | .null => none

/-! ## The context of an event -/

/-- The field of a hook, when the catalog makes it public. -/
def HookCapability.isPublic (hook : HookCapability) (field : String) : Bool :=
  hook.inputFields.any fun input => input.name = field ∧ input.sensitivity = .pub

/-- The field that feeds `event.summary`, when the rule allows it. -/
def HookCapability.summarySource (hook : HookCapability) (allowedFields : List String) :
    Option InputField :=
  hook.inputFields.find? fun input =>
    ["summary", "last_assistant_message", "error"].contains input.name ∧
      input.sensitivity ≠ .forbidden ∧
      allowedFields.any fun field =>
        field = input.name ∨ field = "summary" ∨ field = "event.summary"

/-- The public field of an event as text, under the path of the template. -/
def publicValue (event : EventEnvelope) (field path : String) : BTreeMap String :=
  match (event.publicFields.get field).bind (scalarText sv) with
  | some value => [(path, value)]
  | none => []

def buildTemplateContext (event : EventEnvelope) (allowedFields : List String)
    (localOffset : Int) : TemplateContext :=
  let base : BTreeMap String :=
    [("agent.name", event.source.asStr), ("agent.version", sv.formatVersion event.sourceVersion),
     ("event.name", event.sourceEvent), ("event.severity", severityName event.severity),
     ("event.occurred_at", sv.formatLocal event.occurredAt localOffset)] ++
    (event.projectDisplayName.map fun project => ("project.name", project)).toList
  match sv.hookFor event.source event.sourceVersion event.sourceEvent with
  | none => { values := base, authorized := BASE_TEMPLATE_FIELDS, severity := event.severity }
  | some hook =>
    let fields := [("duration", "event.duration"), ("tool_name", "event.tool_name")].filter
      fun field => hook.isPublic field.1
    let summary := hook.summarySource allowedFields
    { values := base ++ [("event.label", hook.labelZh), ("event.status", hook.phase)] ++
        fields.flatMap (fun field => publicValue sv event field.1 field.2) ++
        (summary.filter fun source => source.sensitivity = .pub).toList.flatMap fun source =>
          publicValue sv event source.name "event.summary"
      authorized := BASE_TEMPLATE_FIELDS ++ ["event.label", "event.status"] ++ fields.map (·.2) ++
        (summary.map fun _ => "event.summary").toList
      severity := event.severity }

/-! ## Rendering -/

/-- The text before the next closing braces, and the text after them. -/
def splitClose : List Char → Option (List Char × List Char)
  | [] => none
  | c :: rest =>
    if c = '\x7d' ∧ rest.head? = some '\x7d' then some ([], rest.tail)
    else (splitClose rest).map fun (path, after) => (c :: path, after)

theorem splitClose_length {s path after : List Char} (h : splitClose s = some (path, after)) :
    after.length < s.length := by
  induction s generalizing path with
  | nil => cases h
  | cons c rest ih =>
    unfold splitClose at h
    split at h
    · cases h
      have := rest.length_tail
      simp only [List.length_cons]
      omega
    · obtain ⟨⟨path', after'⟩, hrest, heq⟩ := Option.map_eq_some_iff.mp h
      cases heq
      have := ih hrest
      simp only [List.length_cons]
      omega

def isAsciiLowercase (c : Char) : Bool := 'a' ≤ c ∧ c ≤ 'z'

/-- `root.leaf`, both of them lower-case words. -/
def validPath (path : List Char) : Bool :=
  let root := path.takeWhile (· ≠ '.')
  let leaf := path.drop (root.length + 1)
  root.length < path.length ∧ root ≠ [] ∧ leaf ≠ [] ∧ !leaf.contains '.' ∧
    root.all isAsciiLowercase ∧ leaf.all fun c => isAsciiLowercase c ∨ c = '_'

/-- The field that a path names. -/
def TemplateContext.field (ctx : TemplateContext) (path : List Char) : Except AppError String :=
  if path.contains '\x7b' ∨ path.contains '\x7d' ∨ !validPath path then .error invalidTemplate
  else if !ctx.authorized.contains (String.ofList path) then .error fieldNotAllowed
  else .ok (ctx.value (String.ofList path))

def isBrace (c : Char) : Bool := c = '\x7b' ∨ c = '\x7d'

/-- The path of the field that a text opens with, and the text after the field. -/
def splitField (s : List Char) : Option (List Char × List Char) :=
  if s.take 2 = ['\x7b', '\x7b'] then splitClose (s.drop 2) else none

theorem splitField_length {s path after : List Char} (h : splitField s = some (path, after)) :
    after.length < s.length := by
  unfold splitField at h
  split at h
  · have := splitClose_length h
    rw [List.length_drop] at this
    omega
  · cases h

def renderTemplate (ctx : TemplateContext) : List Char → Except AppError (List Char)
  | [] => .ok []
  | c :: rest =>
    if isBrace c then
      match _hfield : splitField (c :: rest) with
      | none => .error invalidTemplate
      | some (path, after) => do
        let value ← ctx.field path
        let output ← renderTemplate ctx after
        pure (value.toList ++ output)
    else do
      let output ← renderTemplate ctx rest
      pure (c :: output)
termination_by s => s.length
decreasing_by
  · exact splitField_length _hfield
  · simp

theorem renderTemplate_invalid {ctx : TemplateContext} (hc : isBrace c)
    (h : splitField (c :: rest) = none) :
    renderTemplate ctx (c :: rest) = .error invalidTemplate := by
  rw [renderTemplate, if_pos hc]
  split
  · rfl
  · rename_i hfield
    simp [h] at hfield

theorem renderTemplate_field {ctx : TemplateContext} (hc : isBrace c)
    (h : splitField (c :: rest) = some (path, after)) :
    renderTemplate ctx (c :: rest) = (do
      let value ← ctx.field path
      let output ← renderTemplate ctx after
      pure (value.toList ++ output)) := by
  rw [renderTemplate, if_pos hc]
  split
  · rename_i hfield
    simp [h] at hfield
  · rename_i hfield
    rw [h] at hfield
    cases hfield
    rfl

/-- The authorized fields of a context are all that a template can read. -/
theorem renderTemplate_congr {ctx ctx' : TemplateContext} (hauth : ctx'.authorized = ctx.authorized)
    (hvalue : ∀ path ∈ ctx.authorized, ctx'.value path = ctx.value path) (s : List Char) :
    renderTemplate ctx' s = renderTemplate ctx s := by
  have hfield : ∀ path, ctx'.field path = ctx.field path := by
    intro path
    unfold TemplateContext.field
    rw [hauth]
    split
    · rfl
    split
    · rfl
    · rename_i hmem
      rw [hvalue (String.ofList path) (by simpa using hmem)]
  induction s using renderTemplate.induct with
  | case1 => simp only [renderTemplate]
  | case2 c rest hc hnone => rw [renderTemplate_invalid hc hnone, renderTemplate_invalid hc hnone]
  | case3 c rest hc path after hsome ih =>
    rw [renderTemplate_field hc hsome, renderTemplate_field hc hsome, hfield, ih]
  | case4 c rest hc ih => rw [renderTemplate, renderTemplate, if_neg hc, if_neg hc, ih]

/-! ## Documents -/

def agentText (ctx : TemplateContext) : String :=
  match ctx.value "agent.name", ctx.value "agent.version" with
  | "", version => version
  | name, "" => name
  | name, version => name ++ " " ++ version

def titleText (ctx : TemplateContext) : String :=
  if ctx.value "event.label" = "" then ctx.value "event.name" else ctx.value "event.label"

/-- The five facts of every document. -/
def documentFacts (ctx : TemplateContext) (redactor : Redactor) : List (String × String) :=
  [("Agent", agentText ctx), ("Project", ctx.value "project.name"),
   ("Hook", ctx.value "event.name"), ("Status", ctx.value "event.status"),
   ("Time", ctx.value "event.occurred_at")].map fun fact => (fact.1, redactor.redact fact.2)

/-- A document with a given body, which is redacted and then cut. -/
def documentOf (ctx : TemplateContext) (redactor : Redactor) (maxChars : Nat) (body : String) :
    NotificationDocument where
  title := redactor.redact (titleText ctx)
  severity := ctx.severity
  facts := documentFacts ctx redactor
  body := String.ofList ((redactor.redact body).toList.take maxChars)
  footer := none

def renderDocument (template : String) (ctx : TemplateContext) (redactor : Redactor)
    (maxChars : Nat) : Except AppError NotificationDocument :=
  if (utf8Bytes template).length > MAX_TEMPLATE_BYTES then .error invalidTemplate
  else do
    let rendered ← renderTemplate ctx template.toList
    pure (documentOf ctx redactor maxChars (String.ofList rendered))

def canonicalDocument (ctx : TemplateContext) (redactor : Redactor) (maxChars : Nat) :
    NotificationDocument := documentOf ctx redactor maxChars (ctx.value "event.summary")

end CcReminder
