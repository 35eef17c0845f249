import InputGuard.Json.Decode
import InputGuard.Rule.Record

/-! Parameter records and the names of the grammar as JSON. -/

namespace InputGuard.Rule

open Json (Decoder)

namespace Extracted

/-- A string is a scalar, and an array of strings a list. -/
def ofJson : Decoder Extracted
  | _, .string text => text.map .scalar
  | depth, v => .list <$> Json.asList Json.asText depth v

def toJson : Extracted → Json
  | .scalar text => .text text
  | .list members => .array (members.map .text)

end Extracted

namespace Record

def ofJson : Decoder Record := fun depth j =>
  OrderedMap.ofList <$> Json.asEntries Extracted.ofJson depth j

def toJson (r : Record) : Json := .record (r.entries.map fun (name, e) => (name, e.toJson))

end Record

def Kind.ofJson : Decoder Kind := fun depth j => Json.asName false depth j >>= Kind.ofName?

def Kind.toJson (k : Kind) : Json := .text k.name

def FilterKind.ofJson : Decoder FilterKind := fun depth j =>
  Json.asName false depth j >>= FilterKind.ofName?

def FilterKind.toJson (f : FilterKind) : Json := .text f.name

end InputGuard.Rule
