import InputGuard.Json.Decode
import InputGuard.Json.Parser
import InputGuard.Json.Printer
import InputGuard.Number.Integer
import InputGuard.Schema.Basic

/-! Schema documents as JSON. A value is an object of its shape under `kind` and
its content under `value`. When the content comes before the shape it is held
back, which every number and nesting in it must allow. -/

namespace InputGuard.Schema

open Json (Decoder Fields)

/-- The shape and the content of a written value, and whether it was held back. -/
structure Tagged where
  shape : Shape
  content : Option Json
  held : Bool

namespace Tagged

def ofMembers? (depth : Nat) (held : Bool) (members : List (String × Json)) : Option Tagged := do
  let known ← Fields.select? ["kind", "value"] false members
  let kind ← (known.find? (·.1 = "kind")).map Prod.snd
  let shape ← Json.asName held depth kind >>= Shape.ofName?
  let content := (known.find? (·.1 = "value")).map Prod.snd
  let first := (known.head?.map Prod.fst) == some "value"
  if first && !held && !(content.all (Json.isHoldable depth)) then none
  else some ⟨shape, content, held || first⟩

/-- The shape that the first element of an array gives: its name or, in a value
that was held back, its place in the list of shapes. -/
def shapeOfElement? (held : Bool) : Json → Option Shape
  | .string text => text >>= Shape.ofName?
  | .number literal =>
    if held && Number.isNumeral literal.toList then
      Shape.all[Number.ofDigits literal.toList]?
    else none
  | _ => none

/-- The tag and content of an object, or of an array that holds just these two. -/
def of? (held : Bool) : Decoder Tagged
  | depth + 1, .object ms => Json.keyed? ms >>= ofMembers? depth held
  | _ + 1, .array [kind, content] =>
    (shapeOfElement? held kind).map fun shape => ⟨shape, some content, held⟩
  | _, _ => none

end Tagged

namespace Value

/-- A field of an object value: an array of its name and its value. -/
def asField (d : Decoder Value) : Decoder (String × Value)
  | depth + 1, .array [.string (some name), v] => (name, ·) <$> d depth v
  | _, _ => none

/-- Decodes a value that `fuel` nested values may be inside of; each of them opens
a container, so the depth bounds them. -/
def decodeWith : Nat → Bool → Decoder Value
  | 0, _, _, _ => none
  | fuel + 1, held, depth, j => do
    let t ← Tagged.of? held depth j
    let inner := decodeWith fuel t.held
    match t.shape, t.content with
    | .string, some (.string (some s)) => some (.string s)
    | .int, some (.string (some s)) => some (.int s)
    | .float, some (.string (some s)) => some (.float s)
    | .boolean, some (.bool b) => some (.boolean b)
    | .enum, some (.string (some s)) => some (.enum s)
    | .list, some v => .list <$> Json.asList inner (depth - 1) v
    | .object, some v => .object <$> Json.asList (asField inner) (depth - 1) v
    | .variable, some (.string (some s)) => some (.variable s)
    | .null, none => some .null
    | .null, some .null => some .null
    | _, _ => none

def ofJson : Decoder Value := fun depth => decodeWith depth false depth

/-- A shape with its content. -/
def tagged (shape : Shape) (content : Json) : Json :=
  .record [("kind", .text shape.name), ("value", content)]

mutual

def toJson : Value → Json
  | .string s => tagged .string (.text s)
  | .int s => tagged .int (.text s)
  | .float s => tagged .float (.text s)
  | .boolean b => tagged .boolean (.bool b)
  | .enum s => tagged .enum (.text s)
  | .list vs => tagged .list (.array (toJsons vs))
  | .object fs => tagged .object (.array (fieldsToJson fs))
  | .variable s => tagged .variable (.text s)
  | .null => .record [("kind", .text Shape.null.name)]

def toJsons : List Value → List Json
  | [] => []
  | v :: vs => toJson v :: toJsons vs

def fieldsToJson : List (String × Value) → List Json
  | [] => []
  | (name, v) :: fs => .array [.text name, toJson v] :: fieldsToJson fs

end

end Value

/-- A type reference: the text of one. -/
def TypeRef.ofJson : Decoder TypeRef
  | _, .string (some s) => (TypeRef.parse s.toList).toOption
  | _, _ => none

def TypeRef.toJson (t : TypeRef) : Json := .text t.print

def FieldType.ofJson : Decoder FieldType := fun depth j => FieldType.ofName <$> Json.asText depth j

def FieldType.toJson (t : FieldType) : Json := .text t.name

namespace TypeKind

def all : List TypeKind := [.object, .interface]

def name : TypeKind → String
  | .object => "object"
  | .interface => "interface"

def ofJson : Decoder TypeKind := fun depth j => do
  let name ← Json.asName false depth j
  all.find? (·.name = name)

def toJson (k : TypeKind) : Json := .text k.name

end TypeKind

namespace Argument

def ofJson : Decoder Argument := fun depth j => do
  let f ← Fields.of? ["name", "value"] false depth j
  some ⟨← f.required "name" Json.asText, ← f.required "value" Value.ofJson⟩

def toJson (a : Argument) : Json := .record [("name", .text a.name), ("value", a.value.toJson)]

end Argument

namespace Directive

def ofJson : Decoder Directive := fun depth j => do
  let f ← Fields.of? ["name", "arguments"] false depth j
  some ⟨← f.required "name" Json.asText,
    ← f.optional "arguments" [] (Json.asList Argument.ofJson)⟩

def toJson (d : Directive) : Json :=
  .record [("name", .text d.name), ("arguments", .array (d.arguments.map Argument.toJson))]

end Directive

namespace Field

def ofJson : Decoder Field := fun depth j => do
  let f ← Fields.of? ["name", "type", "directives"] false depth j
  some ⟨← f.required "name" Json.asText, ← f.required "type" TypeRef.ofJson,
    ← f.optional "directives" [] (Json.asList Directive.ofJson)⟩

def toJson (f : Field) : Json :=
  .record [("name", .text f.name), ("type", f.type.toJson),
    ("directives", .array (f.directives.map Directive.toJson))]

end Field

namespace TypeDefinition

def ofJson : Decoder TypeDefinition := fun depth j => do
  let f ← Fields.of? ["name", "kind", "directives", "fields"] false depth j
  some ⟨← f.required "name" Json.asText, ← f.optional "kind" .object TypeKind.ofJson,
    ← f.optional "directives" [] (Json.asList Directive.ofJson),
    ← f.optional "fields" [] (Json.asList Field.ofJson)⟩

def toJson (t : TypeDefinition) : Json :=
  .record [("name", .text t.name), ("kind", t.kind.toJson),
    ("directives", .array (t.directives.map Directive.toJson)),
    ("fields", .array (t.fields.map Field.toJson))]

end TypeDefinition

namespace Document

def ofJson : Decoder Document := fun depth j => do
  let f ← Fields.of? ["types"] false depth j
  some ⟨← f.required "types" (Json.asList TypeDefinition.ofJson)⟩

def toJson (d : Document) : Json := .record [("types", .array (d.types.map TypeDefinition.toJson))]

/-- The document of a JSON text. -/
def ofText? (text : String) : Option Document := Json.ofText? text >>= Json.decode ofJson

def text (d : Document) : String := d.toJson.pretty

end Document
end InputGuard.Schema
