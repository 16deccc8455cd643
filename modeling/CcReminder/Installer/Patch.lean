import CcReminder.Installer.Splice

/-!
# Patching a configuration

`patch_agent` and `inspect_owned_entries` of `installer/mod.rs`. In every array of an event the owned
handlers are deleted, and for a desired event one handler is placed in the first group that has its
matcher, or in a new group.
-/

set_option autoImplicit true

namespace CcReminder

open Jsonc (Value)

structure OwnedHookEntry where
  sourceEvent : String
  matcher : Option String
  command : HookCommand
  timeoutSeconds : UInt8
  deriving DecidableEq

structure ConfigPatch where
  bytes : List UInt8
  beforeHooksSubtree : List UInt8
  beforeHash : String
  afterHash : String

/-- SHA-256, the parser, and serde_json's text of a string. -/
structure PatchServices where
  sha256 : List UInt8 → List UInt8
  parser : JsoncParser
  jsonString : String → List UInt8

def isUtf8 (bytes : List UInt8) : Bool := (String.fromUTF8? ⟨bytes.toArray⟩).isSome

namespace PatchServices

variable (sv : PatchServices)

def sha256Hex (bytes : List UInt8) : String := hexEncode (sv.sha256 bytes)

/-! ## Canonical texts

`serde_json::Map` keeps its keys in order. -/

def jsonNumber (n : UInt8) : List UInt8 := utf8Bytes (toString n.toNat)

/-- The members of an object. -/
def jsonObject (members : List (String × List UInt8)) : List UInt8 :=
  utf8Bytes "\x7b" ++
    List.intercalate (utf8Bytes ",") (members.map fun m => sv.jsonString m.1 ++ utf8Bytes ":" ++ m.2) ++
    utf8Bytes "\x7d"

/-- `commandWindows`, which only one agent documents. -/
def commandWindowsMember (agent : AgentKind) (entry : OwnedHookEntry) : List (String × List UInt8) :=
  match agent, entry.command.commandWindows with
  | .codex, some commandWindows => [("commandWindows", sv.jsonString commandWindows)]
  | _, _ => []

def serialiseOwnedHandler (agent : AgentKind) (entry : OwnedHookEntry) : List UInt8 :=
  sv.jsonObject (("command", sv.jsonString entry.command.command) ::
    sv.commandWindowsMember agent entry ++
    [("timeout", jsonNumber entry.timeoutSeconds), ("type", sv.jsonString "command")])

def serialiseOwnedGroup (agent : AgentKind) (entry : OwnedHookEntry) : List UInt8 :=
  sv.jsonObject [
    ("hooks", utf8Bytes "[" ++ sv.serialiseOwnedHandler agent entry ++ utf8Bytes "]"),
    ("matcher", sv.jsonString (entry.matcher.getD ""))]

def definitionValue (agent : AgentKind) (entry : OwnedHookEntry) : List UInt8 :=
  sv.jsonObject (("command", sv.jsonString entry.command.command) ::
    sv.commandWindowsMember agent entry ++
    [("matcher", sv.jsonString (entry.matcher.getD "")), ("timeout", jsonNumber entry.timeoutSeconds)])

def hookDefinitionFingerprint (agent : AgentKind) (entry : OwnedHookEntry) : String :=
  hexEncode (sv.sha256 (hashText (utf8Bytes entry.sourceEvent) ++
    hashText (sv.definitionValue agent entry)))

end PatchServices

/-! ## Owned handlers -/

def handlerEvent (agent : AgentKind) (handler : Value) : Option String := do
  let object ← handler.asObject
  let command ← object.getString "command"
  recognizeOwned agent command

def ownedHandlerIndicesIn (agent : AgentKind) (event : String) (handlers : Jsonc.Array) : List Nat :=
  handlers.elements.findIdxs fun handler => handlerEvent agent handler = some event

/-- The `hooks` array of a matcher group. -/
def groupHandlers (group : Value) : Option Jsonc.Array :=
  group.asObject.bind (·.getArray "hooks")

def groupMatcher (group : Value) : Option String :=
  group.asObject.bind (·.getString "matcher")

/-! ## One event -/

/-- The first element of the list that stands at one of the indices. -/
def elementStart (elements : List Value) (index : Nat) : Nat :=
  ((elements[index]?).map (·.range.start)).getD 0

def elementStop (elements : List Value) (index : Nat) : Nat :=
  ((elements[index]?).map (·.range.stop)).getD 0

/-- One span for each run of indices. -/
def deleteRuns (elements : List Value) (indices : List Nat) (source : List UInt8) : List Edit :=
  (indexRuns indices).map fun run =>
    deleteSpan source (elementStart elements run.1) (elementStop elements run.2)

/-- A new element behind an element, on a line of its own that is indented as another's. -/
def appendText (source : List UInt8) (indentAt : Nat) (text : List UInt8) : List UInt8 :=
  comma :: detectNewline source ++ lineIndent source indentAt ++ text

/-- The handler behind the last handler that stays. -/
def placeHandlerInGroup (handlers : Jsonc.Array) (owned : List Nat) (source handlerText : List UInt8) :
    Edit :=
  match (handlers.elements.zipIdx.filter fun e => !owned.contains e.2).getLast? with
  | some (survivor, _) =>
    .insert survivor.range.stop
      (appendText source (elementStart handlers.elements 0) handlerText)
  | none => .insert (handlers.range.start + 1) handlerText

def insertArrayAppend (array : Jsonc.Array) (source text : List UInt8) : Edit :=
  match array.elements.getLast? with
  | none => .insert (array.range.start + 1) text
  | some last => .insert last.range.stop (appendText source last.range.start text)

/-- The array of an event, group by group: the handlers and the indices of the owned ones. -/
structure EventPlan where
  handlers : List (Option Jsonc.Array)
  owned : List (List Nat)
  target : Option Nat
  cleanup : List Nat

/-- All handlers of a group are owned, and there are some. -/
def allOwned (handlers : Option Jsonc.Array) (owned : List Nat) : Bool :=
  owned ≠ [] ∧ handlers.any fun h => h.elements.length = owned.length

def eventPlan (agent : AgentKind) (event : String) (array : Jsonc.Array)
    (desired : Option OwnedHookEntry) : EventPlan :=
  let handlers := array.elements.map groupHandlers
  let owned := handlers.map fun h => (h.map (ownedHandlerIndicesIn agent event)).getD []
  let target := desired.bind fun entry => array.elements.findIdx? fun group =>
    groupMatcher group = some (entry.matcher.getD "") ∧ (groupHandlers group).isSome
  { handlers, owned, target
    cleanup := (List.range array.elements.length).filter fun index =>
      allOwned ((handlers[index]?).join) ((owned[index]?).getD []) ∧ target ≠ some index }

namespace EventPlan

variable (plan : EventPlan)

def handlersAt (index : Nat) : Option Jsonc.Array := (plan.handlers[index]?).join

def ownedAt (index : Nat) : List Nat := (plan.owned[index]?).getD []

def targetAllOwned : Bool :=
  plan.target.any fun index => allOwned (plan.handlersAt index) (plan.ownedAt index)

/-- The owned handlers of a group that stays, unless they are replaced as a whole. -/
def handlerEdits (source : List UInt8) (index : Nat) : List Edit :=
  if plan.ownedAt index = [] ∨ index ∈ plan.cleanup ∨
      plan.targetAllOwned ∧ plan.target = some index then []
  else match plan.handlersAt index with
    | some handlers => deleteRuns handlers.elements (plan.ownedAt index) source
    | none => []

end EventPlan

namespace PatchServices

variable (sv : PatchServices)

/-- Where the handler of a desired event goes. -/
def placement (agent : AgentKind) (array : Jsonc.Array) (plan : EventPlan) (source : List UInt8)
    (entry : OwnedHookEntry) : List Edit :=
  let handlerText := sv.serialiseOwnedHandler agent entry
  match plan.target with
  | some index =>
    match plan.handlersAt index with
    | some handlers =>
      let owned := plan.ownedAt index
      if plan.targetAllOwned then
        [.replace (elementStart handlers.elements (owned.head?.getD 0))
          (elementStop handlers.elements (owned.getLast?.getD 0)) handlerText]
      else [placeHandlerInGroup handlers owned source handlerText]
    | none => []
  | none =>
    let groupText := sv.serialiseOwnedGroup agent entry
    if plan.cleanup.length = array.elements.length then
      [.insert (array.range.start + 1) groupText]
    else [insertArrayAppend array source groupText]

def planEvent (agent : AgentKind) (event : String) (array : Jsonc.Array)
    (desired : Option OwnedHookEntry) (source : List UInt8) : List Edit :=
  let plan := eventPlan agent event array desired
  (List.range array.elements.length).flatMap (plan.handlerEdits source) ++
    deleteRuns array.elements plan.cleanup source ++
    (match desired with
      | some entry => sv.placement agent array plan source entry
      | none => [])

/-! ## The document -/

/-- New properties behind the last one. -/
def insertObjectProperties (object : Jsonc.Object) (source : List UInt8) (texts : List (List UInt8)) :
    Edit :=
  match object.properties.getLast? with
  | none => .insert (object.range.start + 1)
      (utf8Bytes " " ++ List.intercalate (utf8Bytes ", ") texts)
  | some last => .insert last.range.stop (texts.flatMap (appendText source last.range.start))

/-- The entries of a map by their keys. -/
def insertEntry (event : String) (entry : OwnedHookEntry) :
    BTreeMap OwnedHookEntry → BTreeMap OwnedHookEntry
  | [] => [(event, entry)]
  | (key, value) :: rest =>
    if event < key then (event, entry) :: (key, value) :: rest
    else if event = key then (event, entry) :: rest
    else (key, value) :: insertEntry event entry rest

/-- One entry for each event, the last one. -/
def desiredMap (agent : AgentKind) : BTreeMap OwnedHookEntry → List OwnedHookEntry →
    Except AppError (BTreeMap OwnedHookEntry)
  | map, [] => .ok map
  | map, entry :: rest =>
    if !isCatalogued agent entry.sourceEvent then
      .error (invalidConfig ("event " ++ entry.sourceEvent ++ " is not catalogued for agent " ++
        agent.asStr))
    else desiredMap agent (insertEntry entry.sourceEvent entry map) rest

/-- `"event": [group]`. -/
def eventText (agent : AgentKind) (m : String × OwnedHookEntry) : List UInt8 :=
  utf8Bytes "\"" ++ utf8Bytes m.1 ++ utf8Bytes "\": [" ++ sv.serialiseOwnedGroup agent m.2 ++
    utf8Bytes "]"

def buildHooksBody (agent : AgentKind) (desired : BTreeMap OwnedHookEntry) : List UInt8 :=
  if desired = [] then utf8Bytes "\x7b\x7d"
  else utf8Bytes "\x7b\n" ++
    List.intercalate (utf8Bytes ",\n") (desired.map fun m =>
      utf8Bytes "    " ++ sv.eventText agent m) ++
    utf8Bytes "\n  \x7d"

def synthesiseFresh (agent : AgentKind) (desired : BTreeMap OwnedHookEntry) (source : List UInt8) :
    List UInt8 :=
  let newline := detectNewline source
  if desired = [] then utf8Bytes "\x7b" ++ newline ++ utf8Bytes "\x7d"
  else utf8Bytes "\x7b" ++ newline ++ utf8Bytes "  \"hooks\": " ++ sv.buildHooksBody agent desired ++
    newline ++ utf8Bytes "\x7d"

/-- The edits of the events that have an array. An event that is desired must have one. -/
def planEvents (agent : AgentKind) (desired : BTreeMap OwnedHookEntry) (source : List UInt8) :
    List Jsonc.ObjectProp → Except AppError (List Edit)
  | [] => .ok []
  | prop :: props =>
    match prop.value.asArray with
    | none =>
      if (desired.get prop.name).isSome then
        .error (invalidConfig ("hooks." ++ prop.name ++ " is not an array"))
      else planEvents agent desired source props
    | some array => do
      let rest ← planEvents agent desired source props
      pure (sv.planEvent agent prop.name array (desired.get prop.name) source ++ rest)

/-- The desired events without a property. -/
def unhandled (desired : BTreeMap OwnedHookEntry) (hooks : Jsonc.Object) :
    BTreeMap OwnedHookEntry :=
  desired.filter fun m => !hooks.properties.any fun prop => prop.name = m.1

def planDocument (agent : AgentKind) (desired : BTreeMap OwnedHookEntry) (source : List UInt8)
    (root : Jsonc.Object) : Except AppError (List Edit) :=
  match root.get "hooks" with
  | none => .ok [insertObjectProperties root source
      [utf8Bytes "\"hooks\": " ++ sv.buildHooksBody agent desired]]
  | some prop =>
    match prop.value.asObject with
    | none => .error (invalidConfig "top-level `hooks` is not an object")
    | some hooks => do
      let edits ← sv.planEvents agent desired source hooks.properties
      let missing := unhandled desired hooks
      if missing = [] then pure edits
      else pure (edits ++ [insertObjectProperties hooks source (missing.map (sv.eventText agent))])

def build (agent : AgentKind) (source : List UInt8) (desired : List OwnedHookEntry) :
    Except AppError (List UInt8) := do
  let desired ← desiredMap agent [] desired
  let root ← sv.parser.parse source
  match root.asObject with
  | none => pure (sv.synthesiseFresh agent desired source)
  | some object => do
    let edits ← sv.planDocument agent desired source object
    applyEdits source edits

/-- The bytes of the `hooks` object, if the source parses. -/
def hooksSubtreeBytes (source : List UInt8) : List UInt8 :=
  match sv.parser.parse source with
  | .ok root => ((hooksObject root).map fun object =>
      (source.drop object.range.start).take (object.range.stop - object.range.start)).getD []
  | .error _ => []

def patchAgent (agent : AgentKind) (source : List UInt8) (desired : List OwnedHookEntry) :
    Except AppError ConfigPatch :=
  if !isUtf8 source then .error (invalidConfig "non-utf8 config")
  else do
    let result ← sv.build agent source desired
    sv.parser.validate result
    pure {
      bytes := result
      beforeHooksSubtree := sv.hooksSubtreeBytes source
      beforeHash := sv.sha256Hex source
      afterHash := sv.sha256Hex result }

/-! ## Inspection -/

/-- `str::parse::<u8>`, which takes a leading plus sign. -/
def parseU8 (text : String) : Option UInt8 :=
  let digits := match text.toList with
    | '+' :: cs => cs
    | cs => cs
  if digits = [] ∨ !digits.all Char.isDigit then none
  else
    let value := digits.foldl (fun n c => 10 * n + (c.toNat - 48)) 0
    if value < 256 then some (UInt8.ofNat value) else none

/-- The entry of a handler that stands under its own event. -/
def ownedEntry (agent : AgentKind) (event : String) (matcher : Option String) (handler : Value) :
    Option OwnedHookEntry := do
  let object ← handler.asObject
  let command ← object.getString "command"
  let commandWindows := object.getString "commandWindows"
  let timeoutSeconds := (((object.get "timeout").bind (·.value.asNumberLit)).bind parseU8).getD 1
  let recognized ← recognizeOwned agent command
  if recognized = event then
    some { sourceEvent := event, matcher, command := { command, commandWindows }, timeoutSeconds }
  else none

def ownedEntries (agent : AgentKind) (prop : Jsonc.ObjectProp) : List OwnedHookEntry :=
  match prop.value.asArray with
  | none => []
  | some array => array.elements.flatMap fun group =>
    match groupHandlers group with
    | none => []
    | some handlers => handlers.elements.filterMap (ownedEntry agent prop.name (groupMatcher group))

def inspectOwnedEntries (agent : AgentKind) (source : List UInt8) :
    Except AppError (List OwnedHookEntry) :=
  if !isUtf8 source then .error (invalidConfig "non-utf8 config")
  else do
    let root ← sv.parser.parse source
    pure (match hooksObject root with
      | none => []
      | some hooks => hooks.properties.flatMap (ownedEntries agent))

end PatchServices

end CcReminder
