import CcReminder.Model

/-!
# JSONC syntax trees

The syntax tree of the `jsonc-parser` crate, whose nodes carry the range of their bytes, and the
lookups of `installer/jsonc.rs`. The parser itself is a parameter.
-/

set_option autoImplicit true

namespace CcReminder

namespace Jsonc

structure Range where
  start : Nat
  stop : Nat
  deriving DecidableEq, Repr

/-- A node. A property has the range of its name and value together, and its name unescaped. -/
inductive Value where
  | stringLit (range : Range) (value : String)
  | numberLit (range : Range) (value : String)
  | booleanLit (range : Range) (value : Bool)
  | object (range : Range) (properties : List (Range × String × Value))
  | array (range : Range) (elements : List Value)
  | nullKeyword (range : Range)

structure ObjectProp where
  range : Range
  name : String
  value : Value

structure Object where
  range : Range
  properties : List ObjectProp

structure Array where
  range : Range
  elements : List Value

/-- `value_range`. -/
def Value.range : Value → Range
  | .stringLit range _ | .numberLit range _ | .booleanLit range _ | .object range _
  | .array range _ | .nullKeyword range => range

def Value.asObject : Value → Option Object
  | .object range properties =>
    some ⟨range, properties.map fun p => ⟨p.1, p.2.1, p.2.2⟩⟩
  | _ => none

def Value.asArray : Value → Option Array
  | .array range elements => some ⟨range, elements⟩
  | _ => none

def Value.asStringLit : Value → Option String
  | .stringLit _ value => some value
  | _ => none

def Value.asNumberLit : Value → Option String
  | .numberLit _ value => some value
  | _ => none

/-- The first property of the name. -/
def Object.get (object : Object) (name : String) : Option ObjectProp :=
  object.properties.find? (·.name = name)

def Object.getString (object : Object) (name : String) : Option String :=
  (object.get name).bind (·.value.asStringLit)

def Object.getArray (object : Object) (name : String) : Option Array :=
  (object.get name).bind (·.value.asArray)

end Jsonc

def invalidConfig (message : String) : AppError where
  domain := .configuration
  code := "configuration.invalid_jsonc"
  message := message

/-- The parser: comments, trailing commas and bare property names are allowed. A document without a
value is not an error of the parser. -/
abbrev JsoncParser := List UInt8 → Except String (Option Jsonc.Value)

namespace JsoncParser

variable (parser : JsoncParser)

def parse (source : List UInt8) : Except AppError Jsonc.Value :=
  match parser source with
  | .error error => .error (invalidConfig ("jsonc parse failed: " ++ error))
  | .ok none => .error (invalidConfig "missing root value")
  | .ok (some value) => .ok value

def validate (source : List UInt8) : Except AppError Unit :=
  match parser source with
  | .error error => .error (invalidConfig ("jsonc validate failed: " ++ error))
  | .ok _ => .ok ()

end JsoncParser

/-- The top-level `hooks` object. -/
def hooksObject (root : Jsonc.Value) : Option Jsonc.Object :=
  root.asObject.bind fun object => (object.get "hooks").bind (·.value.asObject)

end CcReminder
